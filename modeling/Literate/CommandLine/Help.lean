import Literate.CommandLine

/-! Help: what a command does and which words it takes. -/

namespace Literate.CommandLine

namespace Verb

/-- The words of a command line, after the names of the program and the command. -/
def operandWords : Verb → Text
  | .build => "[flags] FILE.w..."
  | .completion => []
  | .help => "[command]"
  | .serve => "[DIR]"
  | .tangle | .weave => "FILE.w..."

def short : Verb → Text
  | .build => "litweb - literate programming: tangle code and weave documents from webs"
  | .completion => "Generate the autocompletion script for the specified shell"
  | .help => "Help about any command"
  | .serve => "Serve a directory of webs over HTTP"
  | .tangle => "Write the output files of each web"
  | .weave => "Write the document of each web"

/-- What a command does, at more length where there is more to say. -/
def description (v : Verb) : List Text :=
  match v with
  | .build =>
    ["litweb reads literate webs: prose interleaved with named code chunks.",
     "",
     "Tangling writes every @o output file, expanding chunk references with the",
     "indentation of each reference. Weaving writes one document per web in a",
     "markup such as rst, html, tex or markdown.",
     "",
     "With no subcommand, litweb tangles and weaves each web given."]
  | .completion =>
    ["Generate the autocompletion script for litweb for the specified shell.",
     "See each sub-command's help for details on how to use the generated script."]
  | .help =>
    ["Help provides help for any command in the application.",
     "Simply type litweb help [path to command] for full details."]
  | .serve =>
    ["Serve the webs in DIR (default: the current directory).",
     "",
     "Chunks, cross references, woven documents and tangled files are rendered",
     "on request. POST /api/webs/\x7bweb\x7d/build writes outputs to disk."]
  | .tangle => [v.short]
  | .weave =>
    ["Write the document of each web in the markup chosen with -w.",
     "",
     "Markups: rst (default), html, tex, tex-minted, markdown, md-html, debug."]

/-- The name of a command behind that of the program. -/
def path (v : Verb) : Text := if v = .build then program else program ++ " " ++ v.name

/-- The commands below a command, with what they do. -/
def below : Verb → List (Text × Text)
  | .build => named.map fun v => (v.name, v.short)
  | .completion =>
    (["bash", "fish", "powershell", "zsh"] : List Text).map fun shell =>
      (shell, "Generate the autocompletion script for " ++ shell)
  | _ => []

end Verb

def padding (width : Nat) (t : Text) : Text := List.replicate (width - t.length) 32

/-- The left column of a flag. -/
def Flag.heading (f : Flag) : Text :=
  let start : Text := if f.letter.isSome then "  " else "      "
  let word := f.effect.valueWord
  let value : Text := if word = [] then [] else " " ++ word
  start ++ f.title ++ value

/-- Flags in two columns. -/
def flagLines (flags : List Flag) : List Text :=
  let width := (flags.map fun f => f.heading.length).foldl max 0
  flags.map fun f =>
    let fallback : Text := if f.fallback = [] then [] else " (default " ++ f.fallback ++ ")"
    f.heading ++ padding width f.heading ++ "   " ++ f.usage ++ fallback

/-- The least width of the names of commands in a listing. -/
def nameWidth : Nat := 11

/-- Flags by ascending name. -/
def sortFlags (flags : List Flag) : List Flag := flags.mergeSort fun a b => Text.le a.name b.name

/-- Lines under a title, with an empty line before it. -/
def titled (title : Text) (lines : List Text) : List Text := [] :: title :: lines

/-- How a command line begins. -/
def usageLines (v : Verb) : List Text :=
  let words := v.operandWords
  let tail : Text := if Text.contains words "[flags]" then [] else " [flags]"
  let own : List Text := if v = .completion then [] else ["  " ++ v.path ++ " " ++ words ++ tail]
  let below : List Text := if v.below = [] then [] else ["  " ++ v.path ++ " [command]"]
  own ++ below

def belowLines (v : Verb) : List Text :=
  v.below.map fun (name, short) => ("  " : Text) ++ name ++ padding nameWidth name ++ " " ++ short

/-- The help text of a command. The program itself has the shared flags among its own. -/
def help (v : Verb) : Text :=
  let commands := if v.below = [] then [] else titled "Available Commands:" (belowLines v)
  let flags :=
    if v = .build then titled "Flags:" (flagLines (sortFlags v.flags))
    else titled "Flags:" (flagLines v.ownFlags) ++ titled "Global Flags:" (flagLines sharedFlags)
  let more :=
    if v.below = [] then []
    else
      let words : Text := v.path ++ " [command] --help"
      titled ("Use \"" ++ words ++ "\" for more information about a command.") []
  Text.lines (v.description ++ titled "Usage:" (usageLines v) ++ commands ++ flags ++ more ++ [[]])

end Literate.CommandLine
