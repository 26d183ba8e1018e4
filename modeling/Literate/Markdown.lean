import Literate.Markdown.Render
import Literate.Html.Escape

/-! Markdown documents: the HTML page that one becomes, and its title. -/

namespace Literate.Markdown

/-- The text of the first heading that is in no other block. -/
def headingTitle (blocks : List Block) (defs : Definitions) : Text :=
  match blocks.findSome? fun b => match b with
    | .heading _ lines => some lines
    | _ => none with
  | some lines => Text.trim (sourceTextAll (inlines defs lines))
  | none => []

def title (source : Text) : Text :=
  let (blocks, defs) := blocks source
  headingTitle blocks defs

def titleElement (title : Text) : Text :=
  if title = [] then [] else "<title>" ++ Html.escape title ++ "</title>\n"

/-- The page of a document. Its title is the first heading, if that has text. -/
def page (source : Text) : Text :=
  let (blocks, defs) := blocks source
  "<!DOCTYPE html>\n<html>\n<head>\n<meta charset=\"utf-8\">\n" ++
    titleElement (headingTitle blocks defs) ++
    "</head>\n<body>\n" ++ blockAll defs blocks ++ "</body>\n</html>\n"

end Literate.Markdown
