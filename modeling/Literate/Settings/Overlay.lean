import Literate.Settings
import Literate.Yaml.Value
import Literate.FileTree

/-! Settings from a file. A file is a YAML mapping that changes the settings it names; keys that it
does not know are passed over. -/

namespace Literate.Settings

/-- Changes a setting unless the node is null. -/
def change {α : Type} (r : Yaml.Reading α) (set : α → Settings) (s : Settings) : Option Settings :=
  match r with
  | .value a => some (set a)
  | .absent => some s
  | .mismatch => none

/-- The keys of settings. -/
def keys : List Text :=
  ["command", "permit", "substitutions", "output", "markup", "line_numbers", "skip_tangle",
    "skip_weave", "log_level", "log_json", "workers", "addr", "api_key", "shutdown_timeout"]

/-- Changes the setting that a key names. -/
def applyEntry (s : Settings) (key : Text) (n : Yaml.Node) : Option Settings :=
  let isKey (name : Text) : Bool := key == name
  if isKey "command" then change n.text (fun t => { s with command := t }) s
  else if isKey "permit" then change n.texts (fun ts => { s with permit := ts }) s
  else if isKey "substitutions" then change n.table (fun es => { s with substitutions := es }) s
  else if isKey "output" then change n.text (fun t => { s with outputDir := t }) s
  else if isKey "markup" then change n.text (fun t => { s with markup := t }) s
  else if isKey "line_numbers" then change n.flag (fun b => { s with lineNumbers := b }) s
  else if isKey "skip_tangle" then change n.flag (fun b => { s with skipTangle := b }) s
  else if isKey "skip_weave" then change n.flag (fun b => { s with skipWeave := b }) s
  else if isKey "log_level" then change n.text (fun t => { s with logLevel := t }) s
  else if isKey "log_json" then change n.flag (fun b => { s with logJson := b }) s
  else if isKey "workers" then change n.count (fun i => { s with workers := i }) s
  else if isKey "addr" then change n.text (fun t => { s with address := t }) s
  else if isKey "api_key" then change n.text (fun t => { s with apiKey := t }) s
  else if isKey "shutdown_timeout" then
    change n.duration (fun d => { s with shutdownTimeout := d }) s
  else some s

/-- Changes the settings that entries name; each may be named once. -/
def applyAll : Settings → List (Text × Yaml.Node) → Option Settings
  | s, [] => some s
  | s, (key, n) :: rest =>
    if key ∈ keys ∧ rest.any (fun e => e.1 == key) then none
    else match applyEntry s key n with
      | some s => applyAll s rest
      | none => none

/-- Lays a document over settings; `none` if it does not fit them. -/
def overlay (s : Settings) : Yaml.Node → Option Settings
  | .mapping entries => (Yaml.entries? entries).bind (applyAll s)
  | n =>
    match n.value? with
    | some (.null, _) => some s
    | _ => none

inductive FileFault where
  | unread (error : FileError)
  /-- The file is no YAML, or does not fit the settings. -/
  | malformed (path : Text)
deriving DecidableEq, Repr

def FileFault.message : FileFault → Text
  | .unread e => "read config: " ++ e.message
  | .malformed path => "parse config " ++ path ++ ": yaml: not a mapping of settings"

/-- Lays the file at a path over settings. -/
def withFile (s : Settings) (tree : FileTree) (path : Text) : Except FileFault Settings :=
  match tree.readFile path with
  | .error e => .error (.unread e)
  | .ok bytes =>
    match Yaml.parse? bytes with
    | none => .error (.malformed path)
    | some none => .ok s
    | some (some n) =>
      match s.overlay n with
      | some s => .ok s
      | none => .error (.malformed path)

end Literate.Settings
