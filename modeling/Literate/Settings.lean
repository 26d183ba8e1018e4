import Literate.Log.Level
import Literate.Duration
import Literate.Text.Class
import Literate.Text.Quoted

/-! Settings: how webs are read and what becomes of them. They come from environment variables;
each has a default. -/

namespace Literate

structure Settings where
  /-- The command character, as a text that should have one. -/
  command : Text := "@"
  /-- The commands whose failures only warn. -/
  permit : List Text := []
  substitutions : List (Text × Text) := []
  /-- The directory for outputs; if it is empty they go beside each web. -/
  outputDir : Text := []
  markup : Text := "rst"
  lineNumbers : Bool := false
  skipTangle : Bool := false
  skipWeave : Bool := false
  logLevel : Text := "info"
  logJson : Bool := false
  workers : Int := 4
  address : Text := ":8090"
  apiKey : Text := []
  /-- In nanoseconds. -/
  shutdownTimeout : Int := 30 * Duration.second
deriving DecidableEq, Repr

namespace Settings

/-- The variables of an environment. -/
abbrev Environment := List (Text × Text)

/-- The value of a variable; an empty one counts as unset. -/
def valueOf? (env : Environment) (name : Text) : Option Text :=
  (env.lookup name).filter (· != [])

/-- The parts between commas, without the blanks around them and without empty ones. -/
def listOf (t : Text) : List Text := ((Text.split 44 t).map Text.trim).filter (· != [])

def positiveOr (fallback : Int) (n : Int) : Int := if n ≤ 0 then fallback else n

/-- The variables that settings are taken from. -/
def variableNames : List Text :=
  ["LITWEB_COMMAND", "LITWEB_PERMIT", "LITWEB_OUTPUT", "LITWEB_MARKUP", "LITWEB_LINE_NUMBERS",
    "LITWEB_SKIP_TANGLE", "LITWEB_SKIP_WEAVE", "LITWEB_LOG_LEVEL", "LITWEB_LOG_JSON",
    "LITWEB_WORKERS", "LITWEB_ADDR", "LITWEB_API_KEY", "LITWEB_SHUTDOWN_TIMEOUT"]

/-- The settings of an environment. A variable that cannot be read leaves the default, and so does
a count or a timeout that is not positive. -/
def ofEnvironment (env : Environment) : Settings :=
  let text (name fallback : Text) : Text := (valueOf? env name).getD fallback
  let flag (name : Text) : Bool := ((valueOf? env name).bind Number.boolean?).getD false
  let count (name : Text) (fallback : Int) : Int :=
    ((valueOf? env name).bind fun t => (Number.decimal t).toOption).getD fallback
  let span (name : Text) (fallback : Int) : Int :=
    ((valueOf? env name).bind Duration.parse?).getD fallback
  let defaults : Settings := {}
  { command := text "LITWEB_COMMAND" defaults.command
    permit := listOf (text "LITWEB_PERMIT" [])
    outputDir := text "LITWEB_OUTPUT" []
    markup := text "LITWEB_MARKUP" defaults.markup
    lineNumbers := flag "LITWEB_LINE_NUMBERS"
    skipTangle := flag "LITWEB_SKIP_TANGLE"
    skipWeave := flag "LITWEB_SKIP_WEAVE"
    logLevel := text "LITWEB_LOG_LEVEL" defaults.logLevel
    logJson := flag "LITWEB_LOG_JSON"
    workers := positiveOr defaults.workers (count "LITWEB_WORKERS" defaults.workers)
    address := text "LITWEB_ADDR" defaults.address
    apiKey := text "LITWEB_API_KEY" []
    shutdownTimeout := positiveOr defaults.shutdownTimeout
      (span "LITWEB_SHUTDOWN_TIMEOUT" defaults.shutdownTimeout) }

/-- The command character; the replacement character stands for a missing one. -/
def commandChar (s : Settings) : Char := (s.command.chars.head?).getD Text.replacement

/-- The log level that the settings name. -/
def level (s : Settings) : Except Log.Level.Fault Log.Level := Log.Level.parse s.logLevel

/-- What makes settings unusable. -/
inductive Fault where
  | notOneCharacter (command : Text)
  | collidesWithText (command : Text)
  | noMarkup
  | workersNotPositive (workers : Int)
  | badLevel (name : Text) (fault : Log.Level.Fault)
deriving DecidableEq, Repr

def Fault.message : Fault → Text
  | .notOneCharacter command => "command must be a single character, got " ++ Text.quoted command
  | .collidesWithText command =>
    "command character " ++ Text.quoted command ++ " would collide with text"
  | .noMarkup => "markup is required"
  | .workersNotPositive n => "workers must be positive, got " ++ Text.ofInt n
  | .badLevel name fault => "log level: " ++ fault.message name

/-- A character that text is made of cannot be a command character. -/
def isTextual (c : Char) : Bool := Text.isLetter c || Text.isDigit c || Text.isBlank c

/-- Finds the first fault of settings. -/
def fault? (s : Settings) : Option Fault :=
  match s.command.runes with
  | [r] =>
    if isTextual r.char then some (.collidesWithText s.command)
    else if s.markup = [] then some .noMarkup
    else if s.workers ≤ 0 then some (.workersNotPositive s.workers)
    else match s.level with
      | .error f => some (.badLevel s.logLevel f)
      | .ok _ => none
  | _ => some (.notOneCharacter s.command)

end Settings

end Literate
