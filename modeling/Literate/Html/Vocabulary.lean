import Literate.Html.Tree

/-! The names of elements by what the rules of HTML say of them. -/

namespace Literate.Html

/-- Names as texts. -/
def named (names : List String) : List Text := names.map Text.ofString

def headingNames : List Text := ["h1", "h2", "h3", "h4", "h5", "h6"]

/-- Blocks that end a paragraph and that their own end tag ends. -/
def blockNames : List Text :=
  ["address", "article", "aside", "blockquote", "center", "details", "dialog", "dir", "div", "dl",
    "fieldset", "figcaption", "figure", "footer", "header", "hgroup", "main", "menu", "nav", "ol",
    "section", "summary", "ul"]

def formattingNames : List Text :=
  ["a", "b", "big", "code", "em", "font", "i", "nobr", "s", "small", "strike", "strong", "tt", "u"]

/-- Elements that may stand in a head. -/
def headNames : List Text :=
  ["base", "basefont", "bgsound", "link", "meta", "noframes", "script", "style", "template",
    "title"]

/-- Parts of a table. -/
def tablePartNames : List Text :=
  ["caption", "col", "colgroup", "tbody", "td", "tfoot", "th", "thead", "tr"]

/-- Elements in which text may not stand. -/
def tableFrameNames : List Text := ["table", "tbody", "tfoot", "thead", "tr"]

def bodySectionNames : List Text := ["tbody", "tfoot", "thead"]

/-- Elements without content in a body. -/
def voidNames : List Text := ["area", "br", "embed", "img", "input", "keygen", "wbr"]

/-- Elements whose end tags may be left out. -/
def impliedEndNames : List Text :=
  ["dd", "dt", "li", "optgroup", "option", "p", "rb", "rp", "rt", "rtc"]

/-- Elements of HTML that an unknown end tag does not reach across. -/
def specialNames : List Text :=
  named [
    "address", "applet", "area", "article", "aside", "base", "basefont", "bgsound", "blockquote",
    "body", "br", "button", "caption", "center", "col", "colgroup", "dd", "details", "dir", "div",
    "dl", "dt", "embed", "fieldset", "figcaption", "figure", "footer", "form", "frame", "frameset",
    "h1", "h2", "h3", "h4", "h5", "h6", "head", "header", "hgroup", "hr", "html", "iframe", "img",
    "input", "keygen", "li", "link", "listing", "main", "marquee", "menu", "meta", "nav", "noembed",
    "noframes", "noscript", "object", "ol", "p", "param", "plaintext", "pre", "script", "section",
    "select", "source", "style", "summary", "table", "tbody", "td", "template", "textarea", "tfoot",
    "th", "thead", "title", "tr", "track", "ul", "wbr", "xmp"]

/-- Elements of HTML that no search for an open element goes beyond. -/
def barrierNames : List Text :=
  ["applet", "caption", "html", "table", "td", "th", "marquee", "object", "template"]

def mathTextNames : List Text := ["mi", "mo", "mn", "ms", "mtext"]

/-- Elements of other vocabularies in which HTML may stand. -/
def svgHostNames : List Text := ["desc", "foreignObject", "title"]

/-- Start tags that end foreign content. -/
def breakoutNames : List Text :=
  named [
    "b", "big", "blockquote", "body", "br", "center", "code", "dd", "div", "dl", "dt", "em",
    "embed", "h1", "h2", "h3", "h4", "h5", "h6", "head", "hr", "i", "img", "li", "listing", "menu",
    "meta", "nobr", "ol", "p", "pre", "ruby", "s", "small", "span", "strong", "strike", "sub", "sup",
    "table", "tt", "u", "ul", "var"]

/-- The names of SVG that have capital letters. -/
def svgNames : List Text :=
  named [
    "altGlyph", "altGlyphDef", "altGlyphItem", "animateColor", "animateMotion", "animateTransform",
    "clipPath", "feBlend", "feColorMatrix", "feComponentTransfer", "feComposite",
    "feConvolveMatrix", "feDiffuseLighting", "feDisplacementMap", "feDistantLight", "feFlood",
    "feFuncA", "feFuncB", "feFuncG", "feFuncR", "feGaussianBlur", "feImage", "feMerge",
    "feMergeNode", "feMorphology", "feOffset", "fePointLight", "feSpecularLighting", "feSpotLight",
    "feTile", "feTurbulence", "foreignObject", "glyphRef", "linearGradient", "radialGradient",
    "textPath"]

/-- The name of an element of SVG, which tags spell in lower case. -/
def svgName (name : Text) : Text :=
  (svgNames.find? fun n => Text.lowerAscii n == name).getD name

namespace Element

def isSpecial (e : Element) : Bool :=
  match e.space with
  | .html => e.name ∈ specialNames
  | .math => e.name ∈ mathTextNames || e.name == Text.ofString "annotation-xml"
  | .svg => e.name ∈ svgHostNames

def isBarrier (e : Element) : Bool :=
  match e.space with
  | .html => e.name ∈ barrierNames
  | .math => e.name ∈ mathTextNames || e.name == Text.ofString "annotation-xml"
  | .svg => e.name ∈ svgHostNames

/-- Text and most tags in the element are HTML. -/
def hostsText (e : Element) : Bool := e.space == .math && e.name ∈ mathTextNames

/-- All that stands in the element is HTML. -/
def hostsHtml (e : Element) : Bool :=
  match e.space with
  | .html => false
  | .math =>
    e.name == Text.ofString "annotation-xml" && e.attributes.any fun (key, value) =>
      key == Text.ofString "encoding" &&
        Text.lowerAscii value ∈ (["text/html", "application/xhtml+xml"] : List Text)
  | .svg => e.name ∈ svgHostNames

end Element

end Literate.Html
