import Literate.Weave.Markup
import Literate.Markdown
import Literate.Html.Title

/-! Titles of woven documents. -/

namespace Literate.Weave

/-- The title of a document: that of an HTML page or the first heading of Markdown; documents of
other markups have none. -/
def title (m : Markup) (doc : Text) : Text :=
  if m.extension = (".html" : Text) then Html.title doc
  else if m.extension = (".md" : Text) then Markdown.title doc
  else []

end Literate.Weave
