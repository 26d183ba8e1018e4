import Literate.Weave.Markup
import Literate.Html.Escape
import Literate.Text.Quoted
import Literate.Markdown

/-! The markups that are always there. -/

namespace Literate.Weave

/-- A name with its number. -/
def numbered (name : Text) (seq : Nat) : Text := name ++ " (" ++ Text.ofNat seq ++ ")"

def links (link : Ref → Text) (rs : List Ref) : Text := Text.join ", " (rs.map link)

/-- One line of text for each entry, between a head and a foot. -/
def listing (head foot : Text) (line : IndexEntry → Text) (entries : List IndexEntry) : Rendered :=
  .ok (head ++ entries.flatMap line ++ foot)

namespace Rst

def link (r : Ref) : Text := "→ `" ++ numbered r.name r.seq ++ "`_"

/-- The continuation lines of a block, indented as its first line is. -/
def indent (t : Text) : Text := Text.replace "\n" "\n    " t

/-- The language of a code block, after a space. -/
def styleWord (style : Text) : Text := if style = [] then [] else " " ++ style

def opening (name : Text) (d : ChunkData) : Text :=
  "\n..  _`" ++ numbered name d.seq ++ "`:\n..  rubric:: " ++ numbered name d.seq ++
    " =\n..  code-block::" ++ styleWord d.style ++
    "\n    :class: code\n\n    "

def closing (name : Text) (d : ChunkData) : Text :=
  "\n..\n\n..  container:: small\n\n    ∎ *" ++ numbered name d.seq ++ "*.\n"

def usedBy (d : ChunkData) : Text :=
  if d.usedBy = [] then [] else "    Used by " ++ links link d.usedBy ++ ".\n"

def line (e : IndexEntry) : Text := ":" ++ e.name ++ ":\n    " ++ links link e.refs ++ "\n"

end Rst

def rst : Markup where
  name := "rst"
  extension := ".rst"
  quote := id
  beginCode d := .ok (Rst.opening d.fullName d)
  endCode d := .ok (Rst.closing d.fullName d ++ Rst.usedBy d ++ "\n")
  beginFile d := .ok (Rst.opening d.name d)
  endFile d := .ok (Rst.closing d.name d ++ "\n")
  code d := .ok (Rst.indent d.text)
  ref r := .ok (Rst.link r)
  refCode r := .ok (Rst.link r)
  fileIndex := listing "\n" "\n" Rst.line
  macroIndex := listing "\n" "\n" Rst.line
  identifierIndex := listing "\n" "\n" Rst.line
  text := none
  finish := id

namespace Page

def link (r : Ref) : Text :=
  "&rarr;<a href=\"#litweb_" ++ Text.ofNat r.seq ++ "\"><em>" ++
    numbered (Html.escape r.name) r.seq ++ "</em></a>"

def anchor (d : ChunkData) : Text :=
  "\n<a name=\"litweb_" ++ Text.ofNat d.seq ++ "\"></a>\n<!--line number " ++ d.location.text ++
    "-->\n"

def codeTitle (d : ChunkData) : Text :=
  "<em>" ++ numbered (Html.escape d.fullName) d.seq ++ "</em>"

def fileTitle (d : ChunkData) : Text :=
  "<tt>" ++ Html.escape d.name ++ "</tt> (" ++ Text.ofNat d.seq ++ ")"

def usedBy (d : ChunkData) : Text :=
  if d.usedBy = [] then [] else "Used by " ++ links link d.usedBy ++ ".\n"

def line (opening closing : Text) (e : IndexEntry) : Text :=
  "<dt>" ++ opening ++ Html.escape e.name ++ closing ++ "</dt><dd>" ++ links link e.refs ++
    "</dd>\n"

end Page

def html : Markup where
  name := "html"
  extension := ".html"
  quote := Html.escape
  beginCode d := .ok (Page.anchor d ++ "<p>" ++ Page.codeTitle d ++ " =</p>\n<pre><code>")
  endCode d := .ok ("\n</code></pre>\n<p>&#8718; " ++ Page.codeTitle d ++ ".\n" ++
    Page.usedBy d ++ "</p>\n")
  beginFile d := .ok (Page.anchor d ++ "<p>" ++ Page.fileTitle d ++ " =</p>\n<pre><code>")
  endFile d := .ok ("\n</code></pre>\n<p>&#8718; " ++ Page.fileTitle d ++ ".\n</p>\n")
  code d := .ok d.text
  ref r := .ok (Page.link r)
  refCode r := .ok (Page.link r)
  fileIndex := listing "<dl>\n" "</dl>\n" (Page.line "<tt>" "</tt>")
  macroIndex := listing "<dl>\n" "</dl>\n" (Page.line [] [])
  identifierIndex := listing "<dl>\n" "</dl>\n" (Page.line "<tt>" "</tt>")
  text := none
  finish := id

namespace Tex

/-- A name with the characters that TeX gives a meaning escaped. -/
def nameByte (b : UInt8) : Text :=
  match b.toNat with
  | 92 => "\\textbackslash\x7b\x7d"
  | 95 => "\\_"
  | 38 => "\\&"
  | 37 => "\\%"
  | 35 => "\\#"
  | 36 => "\\$"
  | 123 => "\\\x7b"
  | 125 => "\\\x7d"
  | _ => [b]

def name (t : Text) : Text := t.flatMap nameByte

def braced (t : Text) : Text := 0x7B :: t ++ [0x7D]

/-- A command with its argument. -/
def command (word argument : Text) : Text := "\\" ++ word ++ braced argument

def environmentEnd (word : Text) : Text := command "end" word

/-- Code with the end of its own environment broken up. -/
def quote (environment t : Text) : Text :=
  Text.replace (environmentEnd environment) ("\\end\\," ++ braced environment) t

def title (r : Ref) : Text := command "textit" (numbered (name r.name) r.seq)

def label (seq : Nat) : Text := "litweb-" ++ Text.ofNat seq

def link (r : Ref) : Text := title r ++ " on p.~" ++ command "pageref" (label r.seq)

def anchor (d : ChunkData) : Text := "\n" ++ command "label" (label d.seq) ++ "\n"

def codeTitle (d : ChunkData) : Text :=
  command "textit" ("Code example " ++ numbered (name d.fullName) d.seq) ++ "\n"

def fileTitle (d : ChunkData) : Text :=
  command "texttt" (name d.name) ++ " (" ++ Text.ofNat d.seq ++ ")\n"

/-- Verbatim text in which references are still commands. -/
def verbatimBegin : Text :=
  command "begin" "Verbatim" ++
    "[commandchars=\\\\\\\x7b\\\x7d,codes=\x7b\\catcode`$$=3\\catcode`^=7\x7d,frame=single]"

/-- The language of a code block, plain text if it names none. -/
def language (style : Text) : Text := if style = [] then "text" else style

def mintedBegin (d : ChunkData) : Text := command "begin" "minted" ++ braced (language d.style)

def usedBy (d : ChunkData) : Text :=
  if d.usedBy = [] then [] else "\\footnotesize Used by " ++ links link d.usedBy ++ ".\n"

def line (face : Text) (e : IndexEntry) : Text :=
  "\\item " ++ command face (name e.name) ++ ": " ++ links link e.refs ++ "\n"

def index (face : Text) : List IndexEntry → Rendered :=
  listing ("\n" ++ command "begin" "itemize" ++ "\n") (environmentEnd "itemize" ++ "\n") (line face)

end Tex

def tex : Markup where
  name := "tex"
  extension := ".tex"
  quote := Tex.quote "Verbatim"
  beginCode d := .ok (Tex.anchor d ++ Tex.command "begin" "flushleft" ++ "\n" ++
    Tex.codeTitle d ++ Tex.verbatimBegin)
  endCode d := .ok ("\n" ++ Tex.environmentEnd "Verbatim" ++ "\n" ++ Tex.usedBy d ++
    Tex.environmentEnd "flushleft" ++ "\n")
  beginFile d := .ok (Tex.anchor d ++ Tex.command "begin" "flushleft" ++ "\n" ++
    Tex.fileTitle d ++ Tex.verbatimBegin)
  endFile _ := .ok ("\n" ++ Tex.environmentEnd "Verbatim" ++ "\n" ++
    Tex.environmentEnd "flushleft" ++ "\n")
  code d := .ok d.text
  ref r := .ok (Tex.link r)
  refCode r := .ok (Tex.title r)
  fileIndex := Tex.index "texttt"
  macroIndex := Tex.index "textit"
  identifierIndex := Tex.index "texttt"
  text := none
  finish := id

def texMinted : Markup :=
  { tex with
    name := "tex-minted"
    quote := Tex.quote "minted"
    beginCode := fun d => .ok (Tex.anchor d ++ Tex.codeTitle d ++ Tex.mintedBegin d)
    endCode := fun d => .ok ("\n" ++ Tex.environmentEnd "minted" ++ "\n" ++ Tex.usedBy d)
    beginFile := fun d => .ok (Tex.anchor d ++ Tex.fileTitle d ++ Tex.mintedBegin d)
    endFile := fun _ => .ok ("\n" ++ Tex.environmentEnd "minted" ++ "\n")
    refCode := fun r => .ok ("→ " ++ numbered r.name r.seq) }

namespace Mark

def link (r : Ref) : Text :=
  "[→ " ++ numbered r.name r.seq ++ "](#litweb_" ++ Text.ofNat r.seq ++ ")"

def anchor (d : ChunkData) : Text := "\n<a id=\"litweb_" ++ Text.ofNat d.seq ++ "\"></a>\n"

def codeTitle (d : ChunkData) : Text := "*" ++ numbered d.fullName d.seq ++ "*"

def fileTitle (d : ChunkData) : Text := "`" ++ d.name ++ "` (" ++ Text.ofNat d.seq ++ ")"

def fenceBegin (d : ChunkData) : Text := "\n\n```" ++ d.style ++ "\n"

def fenceEnd : Text := "\n```\n\n∎ "

def usedBy (d : ChunkData) : Text :=
  if d.usedBy = [] then [] else " Used by " ++ links link d.usedBy ++ "."

def line (quote : Text) (e : IndexEntry) : Text :=
  "- " ++ quote ++ e.name ++ quote ++ ": " ++ links link e.refs ++ "\n"

end Mark

def markdown : Markup where
  name := "markdown"
  extension := ".md"
  quote := id
  beginCode d := .ok (Mark.anchor d ++ Mark.codeTitle d ++ " =" ++ Mark.fenceBegin d)
  endCode d := .ok (Mark.fenceEnd ++ Mark.codeTitle d ++ "." ++ Mark.usedBy d ++ "\n\n")
  beginFile d := .ok (Mark.anchor d ++ Mark.fileTitle d ++ " =" ++ Mark.fenceBegin d)
  endFile d := .ok (Mark.fenceEnd ++ Mark.fileTitle d ++ ".\n\n")
  code d := .ok d.text
  ref r := .ok (Mark.link r)
  refCode r := .ok ("→ " ++ numbered r.name r.seq)
  fileIndex := listing "\n" "\n" (Mark.line "`")
  macroIndex := listing "\n" "\n" (Mark.line "*")
  identifierIndex := listing "\n" "\n" (Mark.line "`")
  text := none
  finish := id

/-- Markdown that is turned into an HTML page when it is complete. -/
def markdownPage : Markup :=
  { markdown with name := "md-html", extension := ".html", finish := Markdown.page }

namespace Debug

def names (rs : List Ref) : Text :=
  "[" ++ Text.join ", " (rs.map fun r => numbered r.name r.seq) ++ "]"

def index (head : Text) : List IndexEntry → Rendered :=
  listing head "\n" fun e => " " ++ e.name ++ "=" ++ names e.refs

end Debug

def debug : Markup where
  name := "debug"
  extension := ".debug"
  quote := id
  beginCode d := .ok ("begin_code: " ++ numbered d.fullName d.seq ++ " " ++ d.location.text ++ "\n")
  endCode d := .ok ("end_code: " ++ numbered d.fullName d.seq ++ " used by " ++
    Debug.names d.usedBy ++ "\n")
  beginFile d := .ok ("begin_file: " ++ numbered d.name d.seq ++ " " ++ d.location.text ++ "\n")
  endFile d := .ok ("end_file: " ++ numbered d.name d.seq ++ "\n")
  code d := .ok ("code: " ++ Text.quoted d.text ++ "\n")
  ref r := .ok ("ref: " ++ numbered r.name r.seq ++ "\n")
  refCode r := .ok ("ref_code: " ++ numbered r.name r.seq ++ "\n")
  fileIndex := Debug.index "file_xref:"
  macroIndex := Debug.index "macro_xref:"
  identifierIndex := Debug.index "userid_xref:"
  text := some fun d => .ok ("text: " ++ Text.quoted d.text ++ " " ++ d.location.text ++ "\n")
  finish := id

/-- The markups by name, in ascending order. -/
def markups : List Markup := [debug, html, markdown, markdownPage, rst, tex, texMinted]

def markupNames : List Text := markups.map Markup.name

def markup? (name : Text) : Option Markup := markups.find? fun m => m.name == name

/-- What is said of a name that no markup has. -/
def unknownMarkup (name : Text) : Text :=
  "unknown markup " ++ Text.quoted name ++ " (have " ++ Text.join ", " markupNames ++ ")"

/-- The markup that is used when none is named. -/
def defaultMarkup : Markup := rst

end Literate.Weave
