import Literate.Log
import Literate.Number
import Literate.Text.Quoted

/-! Names of log levels: one of four words, with an offset if the level lies between them. -/

namespace Literate.Log.Level

inductive Fault where
  | unknownName
  | badOffset (offset : Text) (fault : Number.Fault)
deriving DecidableEq, Repr

def Fault.message (name : Text) (f : Fault) : Text :=
  "slog: level string " ++ Text.quoted name ++ ": " ++
    match f with
    | .unknownName => "unknown name"
    | .badOffset offset fault =>
      "strconv.Atoi: parsing " ++ Text.quoted offset ++ ": " ++ fault.message

/-- The upper-case form, as far as it can spell a level: besides the ASCII letters only the
dotless i has an ASCII capital among them. -/
def capital (c : Char) : Char := if c.toNat = 0x131 then 'I' else c.toUpper

def named? (word : Text) : Option Level :=
  let names : List (Text × Level) :=
    [("DEBUG", debug), ("INFO", info), ("WARN", warn), ("ERROR", error)]
  names.lookup (Text.ofChars (word.chars.map capital))

/-- The level that a text names. Levels are numbers of 64 bits, and an offset may wrap. -/
def parse (t : Text) : Except Fault Level :=
  let word := t.takeWhile fun b => b != 43 && b != 45
  let offset := t.drop word.length
  match (if offset = [] then .ok 0 else Number.decimal offset), named? word with
  | .error f, _ => .error (.badOffset offset f)
  | .ok _, none => .error .unknownName
  | .ok n, some level => .ok (Number.wrap (level + n))

def offsetText (n : Int) : Text :=
  if n = 0 then [] else if n < 0 then Text.ofInt n else "+" ++ Text.ofInt n

/-- The name of a level, from the nearest word below it, or from the lowest. -/
def name (l : Level) : Text :=
  if l < info then "DEBUG" ++ offsetText (l - debug)
  else if l < warn then "INFO" ++ offsetText (l - info)
  else if l < error then "WARN" ++ offsetText (l - warn)
  else "ERROR" ++ offsetText (l - error)

end Literate.Log.Level
