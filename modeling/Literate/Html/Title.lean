import Literate.Html.Insertion
import Literate.Text.Class

/-! The title of an HTML document: the text of its first `title` element or, without one, of its
first `h1`. -/

namespace Literate.Html

/-- The words of the title of a document with single spaces between them. -/
def title (doc : Text) : Text :=
  match parse? doc with
  | none => []
  | some tree =>
    let depth := tree.nodes.size
    match (tree.find? "title" depth 0).or (tree.find? "h1" depth 0) with
    | none => []
    | some i => Text.join " " (Text.fields (tree.textOf depth i))

end Literate.Html
