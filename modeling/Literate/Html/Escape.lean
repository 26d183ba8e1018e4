import Literate.Text

/-! Text inside HTML. -/

namespace Literate.Html

def escapeByte (b : UInt8) : Text :=
  match b.toNat with
  | 38 => "&amp;"
  | 39 => "&#39;"
  | 60 => "&lt;"
  | 62 => "&gt;"
  | 34 => "&#34;"
  | 13 => "&#13;"
  | _ => [b]

/-- Text with the characters that HTML gives a meaning written as references. -/
def escape (t : Text) : Text := t.flatMap escapeByte

end Literate.Html
