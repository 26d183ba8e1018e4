import Literate.Html.Builder

/-! What each token does to a tree under construction, by the mode of the construction. A token is
used up, or it is looked at again in the mode that it led to. -/

namespace Literate.Html

/-- The outcome of a token: the construction, and the token if it is to be looked at again. -/
structure Step where
  builder : Builder
  again : Option Token := none

namespace Step

def done (b : Builder) : Step := ⟨b, none⟩

def retry (t : Token) (b : Builder) : Step := ⟨b, some t⟩

end Step

open Step

namespace Insertion

/-- Treats a token that is not written but follows from another. -/
abbrev Implied := Token → Builder → Builder

def startOf (name : Text) : Token := .start { name }

def isSpaceOnly (t : Text) : Bool := t.all isHtmlSpace

/-- The white space at the start of a text, and the rest. -/
def splitSpace (t : Text) : Text × Text := (t.takeWhile isHtmlSpace, t.dropWhile isHtmlSpace)

/-! Document types. A document without a proper one is rendered as old browsers did. -/

/-- What stands between quotes, and the rest. -/
def quotedPart? (t : Text) : Option (Text × Text) :=
  match t with
  | quote :: rest =>
    if quote = 34 ∨ quote = 39 then
      some (rest.takeWhile (· != quote), (rest.dropWhile (· != quote)).drop 1)
    else none
  | [] => none

/-- Beginnings of the public names of old types. -/
def oldTypes : List Text :=
  ["-//ietf//dtd html", "-//w3c//dtd html 3", "-//w3c//dtd html 4.0 frameset//",
    "-//w3c//dtd html 4.0 transitional//", "-//w3c//dtd w3 html//", "-//w3o//dtd w3 html 3.0//"]

/-- The document type asks for the behaviour of old browsers: it is not that of HTML, has a public
name without the address of a system or with something after that, or is an old one. -/
def asksOldRules (t : Text) : Bool :=
  let name := t.takeWhile fun b => !isHtmlSpace b
  let rest := (t.drop name.length).dropWhile isHtmlSpace
  let key := Text.lowerAscii (rest.take 6)
  let after := (rest.drop 6).dropWhile isHtmlSpace
  let isLast (t : Text) : Bool := match quotedPart? t with
    | some (_, rest) => rest == []
    | none => false
  let isProper : Bool :=
    if rest.length < 6 then rest == []
    else if key = ("system" : Text) then isLast after
    else if key = ("public" : Text) then
      match quotedPart? after with
      | none => false
      | some (id, rest) =>
        let id := Text.lowerAscii id
        isLast (rest.dropWhile isHtmlSpace) && id != Text.ofString "html" &&
          !oldTypes.any fun old => old.isPrefixOf id
    else false
  name != Text.ofString "html" || !isProper

/-! Before the body. -/

def initial (tok : Token) (b : Builder) : Step :=
  let leave (tok : Token) : Step := retry tok { b with oldRules := true, mode := .beforeHtml }
  match tok with
  | .text t => if isSpaceOnly t then done b else leave (.text (splitSpace t).2)
  | .remark => done (b.insertRemark (some 0))
  | .doctype t => done { b with oldRules := asksOldRules t, mode := .beforeHtml }
  | tok => leave tok

def beforeHtml (implied : Implied) (tok : Token) (b : Builder) : Step :=
  let leave (tok : Token) : Step := retry tok (implied (startOf "html") b)
  match tok with
  | .doctype _ => done b
  | .text t => if isSpaceOnly t then done b else leave (.text (splitSpace t).2)
  | .start tag =>
    if tag.name = ("html" : Text) then done ((b.insertTag tag).setMode .beforeHead) else leave tok
  | .stop name =>
    if name ∈ (["head", "body", "html", "br"] : List Text) then leave tok else done b
  | .remark => done (b.insertRemark (some 0))
  | .ending => leave tok

def beforeHead (implied : Implied) (tok : Token) (b : Builder) : Step :=
  let leave (tok : Token) : Step := retry tok (implied (startOf "head") b)
  match tok with
  | .doctype _ => done b
  | .text t => if isSpaceOnly t then done b else leave (.text (splitSpace t).2)
  | .start tag =>
    if tag.name = ("head" : Text) then
      let b := b.insertTag tag
      done { b with head := some b.top, mode := .inHead }
    else if tag.name = ("html" : Text) then done b
    else leave tok
  | .stop name =>
    if name ∈ (["head", "body", "html", "br"] : List Text) then leave tok else done b
  | .remark => done (b.insertRemark none)
  | .ending => leave tok

/-- Ends the innermost template. -/
def endTemplate (b : Builder) : Builder :=
  let b := b.closeImplied []
  let rest := b.open_.dropWhile fun i =>
    !((b.element i).space == .html && (b.element i).name == Text.ofString "template")
  let b := { b with open_ := rest.drop 1 }.clearActive
  { b with templates := b.templates.drop 1 }.resetMode

/-- Begins a template. Templates are not read inside other vocabularies: there the rest of the
document is left out. -/
def beginTemplate (tag : Tag) (b : Builder) : Builder :=
  if b.open_.any fun i => (b.element i).space != .html then b.setMode .ignoring
  else
    let b := (b.insertTag tag).mark.forbidFrameset
    { b with mode := .inTemplate, templates := .inTemplate :: b.templates }

def inHead (implied : Implied) (tok : Token) (b : Builder) : Step :=
  let leave (tok : Token) (b : Builder) : Step := retry tok (implied (.stop "head") b)
  match tok with
  | .text t =>
    let (space, rest) := splitSpace t
    let b := b.insertText space
    if rest = [] then done b else leave (.text rest) b
  | .start tag =>
    let is (names : List Text) : Bool := tag.name ∈ names
    if is ["html", "head"] then done b
    else if is ["base", "basefont", "bgsound", "link", "meta"] then done (b.insertVoid tag)
    else if is ["noframes", "noscript", "script", "style", "title"] then done (b.insertRaw tag)
    else if is ["template"] then done (beginTemplate tag b)
    else leave tok b
  | .stop name =>
    if name = ("head" : Text) then done (b.pop.setMode .afterHead)
    else if name ∈ (["body", "html", "br"] : List Text) then leave tok b
    else if name = ("template" : Text) ∧ b.hasTemplate then done (endTemplate b)
    else done b
  | .remark => done (b.insertRemark none)
  | .doctype _ => done b
  | .ending => leave tok b

def afterHead (implied : Implied) (tok : Token) (b : Builder) : Step :=
  let leave (tok : Token) (b : Builder) : Step :=
    let b := { implied (startOf "body") b with framesetAllowed := true }
    if tok = .ending then done b else retry tok b
  match tok with
  | .text t =>
    let (space, rest) := splitSpace t
    let b := b.insertText space
    if rest = [] then done b else leave (.text rest) b
  | .start tag =>
    if tag.name = ("body" : Text) then
      done ((b.insertTag tag).forbidFrameset.setMode .inBody)
    else if tag.name = ("frameset" : Text) then done ((b.insertTag tag).setMode .inFrameset)
    else if tag.name ∈ headNames then
      let head := b.head.getD 0
      let step := inHead implied tok { b with open_ := head :: b.open_ }
      { step with builder := step.builder.close head }
    else if tag.name ∈ (["html", "head"] : List Text) then done b
    else leave tok b
  | .stop name =>
    if name ∈ (["body", "html", "br"] : List Text) then leave tok b
    else if name = ("template" : Text) then inHead implied tok b
    else done b
  | .remark => done (b.insertRemark none)
  | .doctype _ => done b
  | .ending => leave tok b

/-! The body. -/

/-- The first line end of an element that shows its lines as they are written is left out. -/
def withoutFirstBreak (t : Text) : Text :=
  let t := match t with
    | 13 :: rest => rest
    | t => t
  match t with
  | 10 :: rest => rest
  | t => t

def bodyText (t : Text) (b : Builder) : Builder :=
  let first := b.topIs ["pre", "listing"] && !b.tree.hasChild b.top
  let t := withoutZeros (if first then withoutFirstBreak t else t)
  if t = [] then b
  else
    let b := b.resumeFormatting.insertText t
    if isSpaceOnly t then b else b.forbidFrameset

/-- Closes an item before another begins. -/
def closeItem (names : List Text) (b : Builder) : Builder :=
  let role (i : Nat) : Builder.Role :=
    let e := b.element i
    if e.name ∈ names then .target
    else if e.name ∈ (["address", "div", "p"] : List Text) || !e.isSpecial then .passed
    else .barrier
  match Builder.fromTarget? role b.open_ with
  | some rest => { b with open_ := rest.drop 1 }
  | none => b

/-- The body of the document, if it is open. -/
def openBody? (b : Builder) : Option Nat :=
  (b.open_.reverse.drop 1).head?.filter fun i => (b.element i).name == Text.ofString "body"

/-- A field that is not shown. -/
def isHidden (tag : Tag) : Bool :=
  tag.attributes.any fun (key, value) =>
    key == Text.ofString "type" && Text.lowerAscii value == Text.ofString "hidden"

/-- Begins content of another vocabulary. -/
def beginForeign (space : Space) (name : Text) (tag : Tag) (b : Builder) : Builder :=
  let b := b.insert ⟨name, space, tag.attributes⟩
  if tag.selfClosing then b.pop else b

/-- A frameset takes the place of a body without content. -/
def beginFrameset (tag : Tag) (b : Builder) : Builder :=
  match openBody? b with
  | some body =>
    if b.framesetAllowed then
      let root := b.open_.drop (b.open_.length - 1)
      ({ b with tree := b.tree.detach body, open_ := root }.insertTag tag).setMode .inFrameset
    else b
  | none => b

/-- A link ends a link that is still active. -/
def endActiveLink (b : Builder) : Builder :=
  match b.recent.find? fun i => (b.element i).name == Text.ofString "a" with
  | some i => ((b.endFormatting "a").close i).forget i
  | none => b

def bodyStart (implied : Implied) (tag : Tag) (b : Builder) : Step :=
  let is (names : List Text) : Bool := tag.name ∈ names
  let tok := Token.start tag
  if is ["html"] then done b
  else if is headNames then inHead implied tok b
  else if is ["body"] then
    done (if !b.hasTemplate && (openBody? b).isSome then b.forbidFrameset else b)
  else if is ["frameset"] then done (beginFrameset tag b)
  else if is blockNames || is ["p"] then done (b.closeParagraph.insertTag tag)
  else if is headingNames then
    let b := b.closeParagraph
    done ((if b.topIs headingNames then b.pop else b).insertTag tag)
  else if is ["pre", "listing"] then done (b.closeParagraph.insertTag tag).forbidFrameset
  else if is ["form"] then
    if b.form.isSome && !b.hasTemplate then done b
    else
      let b := b.closeParagraph.insertTag tag
      done (if b.hasTemplate then b else { b with form := some b.top })
  else if is ["li"] then
    done ((closeItem ["li"] b.forbidFrameset).closeParagraph.insertTag tag)
  else if is ["dd", "dt"] then
    done ((closeItem ["dd", "dt"] b.forbidFrameset).closeParagraph.insertTag tag)
  else if is ["plaintext"] then done (b.closeParagraph.insertTag tag)
  else if is ["button"] then
    done ((b.popUntil .default ["button"]).resumeFormatting.insertTag tag).forbidFrameset
  else if is ["a"] then done ((endActiveLink b).resumeFormatting.insertFormatting tag)
  else if is ["nobr"] then
    let b := b.resumeFormatting
    let b := if b.inScope .default ["nobr"] then (b.endFormatting "nobr").resumeFormatting else b
    done (b.insertFormatting tag)
  else if is formattingNames then done (b.resumeFormatting.insertFormatting tag)
  else if is ["applet", "marquee", "object"] then
    done (b.resumeFormatting.insertTag tag).mark.forbidFrameset
  else if is ["table"] then
    let b := if b.oldRules then b else b.closeParagraph
    done ((b.insertTag tag).forbidFrameset.setMode .inTable)
  else if is voidNames then
    let b := b.resumeFormatting.insertVoid tag
    done (if is ["input"] && isHidden tag then b else b.forbidFrameset)
  else if is ["param", "source", "track"] then done (b.insertVoid tag)
  else if is ["hr"] then done (b.closeParagraph.insertVoid tag).forbidFrameset
  else if is ["image"] then retry (.start { tag with name := "img" }) b
  else if is ["textarea"] then done (b.insertRaw tag).forbidFrameset
  else if is ["xmp"] then done (b.closeParagraph.resumeFormatting.insertRaw tag).forbidFrameset
  else if is ["iframe"] then done (b.insertRaw tag).forbidFrameset
  else if is ["noembed", "noscript"] then done (b.insertRaw tag)
  else if is ["select"] then
    done ((b.resumeFormatting.insertTag tag).forbidFrameset.setMode .inSelect)
  else if is ["optgroup", "option"] then
    done ((if b.topIs ["option"] then b.pop else b).resumeFormatting.insertTag tag)
  else if is ["rb", "rtc"] then
    done ((if b.inScope .default ["ruby"] then b.closeImplied [] else b).insertTag tag)
  else if is ["rp", "rt"] then
    done ((if b.inScope .default ["ruby"] then b.closeImplied "rtc" else b).insertTag tag)
  else if is ["math"] then done (beginForeign .math tag.name tag b.resumeFormatting)
  else if is ["svg"] then done (beginForeign .svg tag.name tag b.resumeFormatting)
  else if is tablePartNames || is ["frame", "head"] then done b
  else done (b.resumeFormatting.insertTag tag)

/-- Ends a form. Outside a template only the form that was begun last counts. -/
def endForm (b : Builder) : Builder :=
  if b.hasTemplate then
    if b.inScope .default ["form"] then (b.closeImplied []).popUntil .default ["form"] else b
  else
    match b.form, b.inScope? .default ["form"] with
    | some form, some (found :: _) =>
      let b := { b with form := none }
      if found = form then (b.closeImplied []).close form else b
    | _, _ => { b with form := none }

def bodyStop (implied : Implied) (name : Text) (b : Builder) : Step :=
  let is (names : List Text) : Bool := name ∈ names
  if is ["body"] then done (if b.inScope .default ["body"] then b.setMode .afterBody else b)
  else if is ["html"] then
    if b.inScope .default ["body"] then retry (.stop name) (implied (.stop "body") b) else done b
  else if is blockNames || is ["button", "listing", "pre", "dd", "dt"] then
    done (b.popUntil .default [name])
  else if is ["form"] then done (endForm b)
  else if is ["p"] then
    let b := if b.inScope .button ["p"] then b else implied (startOf "p") b
    done b.closeParagraph
  else if is ["li"] then done (b.popUntil .listItem ["li"])
  else if is headingNames then done (b.popUntil .default headingNames)
  else if is formattingNames then done (b.endFormatting name)
  else if is ["applet", "marquee", "object"] then
    done (match b.popUntil? .default [name] with
      | some b => b.clearActive
      | none => b)
  else if is ["br"] then retry (startOf "br") b
  else if is ["template"] then inHead implied (.stop name) b
  else done (b.endOther name)

def inBody (implied : Implied) (tok : Token) (b : Builder) : Step :=
  match tok with
  | .text t => done (bodyText t b)
  | .start tag => bodyStart implied tag b
  | .stop name => bodyStop implied name b
  | .remark => done (b.insertRemark none)
  | .doctype _ => done b
  | .ending => if b.templates.isEmpty then done b else retry tok (b.setMode .inTemplate)

/-- Raw text up to the end tag of its element. -/
def rawText (tok : Token) (b : Builder) : Step :=
  match tok with
  | .text t =>
    let first := b.topIs ["textarea"] && !b.tree.hasChild b.top
    done (b.insertText (if first then withoutFirstBreak t else t))
  | .stop _ => done (b.pop.setMode b.resumed)
  | .ending => retry tok (b.pop.setMode b.resumed)
  | tok => retry tok (b.setMode b.resumed)

/-! Tables. -/

/-- What does not belong in a table is treated as in a body, and put before the table. -/
def fostered (implied : Implied) (tok : Token) (b : Builder) : Step :=
  let step := inBody implied tok { b with fostering := true }
  { step with builder := { step.builder with fostering := false } }

def tableStart (implied : Implied) (tag : Tag) (b : Builder) : Step :=
  let is (names : List Text) : Bool := tag.name ∈ names
  let tok := Token.start tag
  if is ["caption"] then done ((b.clearToTable.mark.insertTag tag).setMode .inCaption)
  else if is ["colgroup"] then done ((b.clearToTable.insertTag tag).setMode .inColumnGroup)
  else if is ["col"] then retry tok (implied (startOf "colgroup") b)
  else if is bodySectionNames then done ((b.clearToTable.insertTag tag).setMode .inTableBody)
  else if is ["td", "th", "tr"] then retry tok (implied (startOf "tbody") b)
  else if is ["table"] then
    match b.popUntil? .table ["table"] with
    | some b => retry tok b.resetMode
    | none => done b
  else if is ["style", "script", "template"] then inHead implied tok b
  else if is ["input"] && isHidden tag then done (b.insertVoid tag)
  else if is ["form"] then
    if b.hasTemplate || b.form.isSome then done b
    else
      let b := b.insertTag tag
      done { b.pop with form := some b.top }
  else if is ["select"] then
    let b := b.resumeFormatting
    let b := { b with fostering := b.topIs tableFrameNames }.insertTag tag
    done ({ b with fostering := false }.forbidFrameset.setMode .inSelectInTable)
  else fostered implied tok b

def inTable (implied : Implied) (tok : Token) (b : Builder) : Step :=
  match tok with
  | .text t =>
    let t := withoutZeros t
    if b.topIs tableFrameNames && isSpaceOnly t then done (b.insertText t)
    else fostered implied (.text t) b
  | .start tag => tableStart implied tag b
  | .stop name =>
    if name = ("table" : Text) then
      done (match b.popUntil? .table ["table"] with
        | some b => b.resetMode
        | none => b)
    else if name ∈ tablePartNames || name ∈ (["body", "html"] : List Text) then done b
    else if name = ("template" : Text) then inHead implied tok b
    else fostered implied tok b
  | .remark => done (b.insertRemark none)
  | .doctype _ => done b
  | .ending => inBody implied tok b

/-- Ends a caption, if one is open in the table. -/
def endCaption? (b : Builder) : Option Builder :=
  (b.popUntil? .table ["caption"]).map fun b => b.clearActive.setMode .inTable

/-- A selection among parts of a table. -/
def beginSelect (tag : Tag) (b : Builder) : Builder :=
  (b.resumeFormatting.insertTag tag).forbidFrameset.setMode .inSelectInTable

def inCaption (implied : Implied) (tok : Token) (b : Builder) : Step :=
  match tok with
  | .start tag =>
    if tag.name ∈ tablePartNames ∧ tag.name ≠ ("th" : Text) then
      match endCaption? b with
      | some b => retry tok b
      | none => done b
    else if tag.name = ("select" : Text) then done (beginSelect tag b)
    else inBody implied tok b
  | .stop name =>
    if name = ("caption" : Text) then done ((endCaption? b).getD b)
    else if name = ("table" : Text) then
      match endCaption? b with
      | some b => retry tok b
      | none => done b
    else if name ∈ tablePartNames || name ∈ (["body", "html"] : List Text) then done b
    else inBody implied tok b
  | tok => inBody implied tok b

def inColumnGroup (implied : Implied) (tok : Token) (b : Builder) : Step :=
  let leave (tok : Token) (b : Builder) : Step :=
    if b.topIs ["colgroup"] then retry tok (b.pop.setMode .inTable) else done b
  match tok with
  | .text t =>
    let (space, rest) := splitSpace t
    let b := b.insertText space
    if rest = [] then done b else leave (.text rest) b
  | .start tag =>
    if tag.name = ("html" : Text) then done b
    else if tag.name = ("col" : Text) then done (b.insertVoid tag)
    else if tag.name = ("template" : Text) then inHead implied tok b
    else leave tok b
  | .stop name =>
    if name = ("colgroup" : Text) then
      done (if b.topIs ["colgroup"] then b.pop.setMode .inTable else b)
    else if name = ("col" : Text) then done b
    else if name = ("template" : Text) then inHead implied tok b
    else leave tok b
  | .remark => done (b.insertRemark none)
  | .doctype _ => done b
  | .ending => inBody implied tok b

def inTableBody (implied : Implied) (tok : Token) (b : Builder) : Step :=
  let leave : Step :=
    match b.popUntil? .table bodySectionNames with
    | some b => retry tok (b.setMode .inTable)
    | none => done b
  match tok with
  | .start tag =>
    let is (names : List Text) : Bool := tag.name ∈ names
    if is ["tr"] then done ((b.clearToTableBody.insertTag tag).setMode .inRow)
    else if is ["td", "th"] then retry tok (implied (startOf "tr") b)
    else if is tablePartNames then leave
    else inTable implied tok b
  | .stop name =>
    let is (names : List Text) : Bool := name ∈ names
    if is bodySectionNames then
      done (if b.inScope .table [name] then b.clearToTableBody.pop.setMode .inTable else b)
    else if is ["table"] then leave
    else if is tablePartNames || is ["body", "html"] then done b
    else inTable implied tok b
  | .remark => done (b.insertRemark none)
  | tok => inTable implied tok b

/-- Ends a row, if one is open in the table. -/
def endRow? (b : Builder) : Option Builder :=
  if b.inScope .table ["tr"] then some (b.clearToRow.pop.setMode .inTableBody) else none

def inRow (implied : Implied) (tok : Token) (b : Builder) : Step :=
  let leave : Step :=
    match endRow? b with
    | some b => retry tok b
    | none => done b
  match tok with
  | .start tag =>
    let is (names : List Text) : Bool := tag.name ∈ names
    if is ["td", "th"] then done ((b.clearToRow.insertTag tag).mark.setMode .inCell)
    else if is tablePartNames then leave
    else inTable implied tok b
  | .stop name =>
    let is (names : List Text) : Bool := name ∈ names
    if is ["tr"] then done ((endRow? b).getD b)
    else if is ["table"] then leave
    else if is bodySectionNames then if b.inScope .table [name] then leave else done b
    else if is tablePartNames || is ["body", "html"] then done b
    else inTable implied tok b
  | tok => inTable implied tok b

def inCell (implied : Implied) (tok : Token) (b : Builder) : Step :=
  match tok with
  | .start tag =>
    if tag.name ∈ tablePartNames then
      match b.popUntil? .table ["td", "th"] with
      | some b => retry tok (b.clearActive.setMode .inRow)
      | none => done b
    else if tag.name = ("select" : Text) then done (beginSelect tag b)
    else inBody implied tok b
  | .stop name =>
    let is (names : List Text) : Bool := name ∈ names
    if is ["td", "th"] then
      done (match b.popUntil? .table [name] with
        | some b => b.clearActive.setMode .inRow
        | none => b)
    else if is ["body", "caption", "col", "colgroup", "html"] then done b
    else if is tableFrameNames then
      if b.inScope .table [name] then
        let b := match b.popUntil? .table ["td", "th"] with
          | some b => b.clearActive
          | none => b
        retry tok (b.setMode .inRow)
      else done b
    else inBody implied tok b
  | tok => inBody implied tok b

/-! Selections, in which only options count. -/

def endSelect (b : Builder) : Builder :=
  match b.popUntil? .select ["select"] with
  | some b => b.resetMode
  | none => b

def selectStart (implied : Implied) (tag : Tag) (b : Builder) : Step :=
  let is (names : List Text) : Bool := tag.name ∈ names
  let tok := Token.start tag
  if is ["option"] then done ((if b.topIs ["option"] then b.pop else b).insertTag tag)
  else if is ["optgroup"] then
    let b := if b.topIs ["option"] then b.pop else b
    done ((if b.topIs ["optgroup"] then b.pop else b).insertTag tag)
  else if is ["select"] then done (endSelect b)
  else if is ["input", "keygen", "textarea"] then
    if b.inScope .select ["select"] then retry tok (implied (.stop "select") b)
    else done { b with notRaw := true }
  else if is ["script", "template"] then inHead implied tok b
  else if is ["iframe", "noembed", "noframes", "noscript", "style", "title"] then
    done { b with notRaw := true }
  else done b

def inSelect (implied : Implied) (tok : Token) (b : Builder) : Step :=
  match tok with
  | .text t => done (b.insertText (withoutZeros t))
  | .start tag => selectStart implied tag b
  | .stop name =>
    if name = ("option" : Text) then done (if b.topIs ["option"] then b.pop else b)
    else if name = ("optgroup" : Text) then
      let inner := if b.topIs ["option"] then b.pop else b
      done (if inner.topIs ["optgroup"] then inner.pop else b)
    else if name = ("select" : Text) then done (endSelect b)
    else if name = ("template" : Text) then inHead implied tok b
    else done b
  | .remark => done (b.insertRemark none)
  | .doctype _ => done b
  | .ending => inBody implied tok b

def inSelectInTable (implied : Implied) (tok : Token) (b : Builder) : Step :=
  let isPart (name : Text) : Bool :=
    name ∈ (["caption", "table", "tbody", "tfoot", "thead", "tr", "td", "th"] : List Text)
  let leave : Step :=
    let b := match b.innermost? "select" with
      | some (_, outer) => { b with open_ := outer }
      | none => b
    retry tok b.resetMode
  match tok with
  | .start tag => if isPart tag.name then leave else inSelect implied tok b
  | .stop name =>
    if !isPart name then inSelect implied tok b
    else if b.inScope .table [name] then leave
    else done b
  | tok => inSelect implied tok b

/-! Templates, whose content may begin anywhere. -/

def inTemplate (implied : Implied) (tok : Token) (b : Builder) : Step :=
  let turn (m : Mode) : Step :=
    retry tok { b with mode := m, templates := m :: b.templates.drop 1 }
  match tok with
  | .start tag =>
    let is (names : List Text) : Bool := tag.name ∈ names
    if is headNames then inHead implied tok b
    else if is ["caption", "colgroup", "tbody", "tfoot", "thead"] then turn .inTable
    else if is ["col"] then turn .inColumnGroup
    else if is ["tr"] then turn .inTableBody
    else if is ["td", "th"] then turn .inRow
    else turn .inBody
  | .stop name => if name = ("template" : Text) then inHead implied tok b else done b
  | .ending => if b.hasTemplate then retry tok (endTemplate b) else done b
  | tok => inBody implied tok b

/-! After the body, and framesets. -/

def afterBody (implied : Implied) (tok : Token) (b : Builder) : Step :=
  let back : Step := retry tok (b.setMode .inBody)
  match tok with
  | .ending => done b
  | .text t => if isSpaceOnly t then inBody implied tok b else back
  | .start tag => if tag.name = ("html" : Text) then done b else back
  | .stop name => if name = ("html" : Text) then done (b.setMode .afterAfterBody) else back
  | .remark => done (b.insertRemark b.open_.getLast?)
  | .doctype _ => back

def afterAfterBody (implied : Implied) (tok : Token) (b : Builder) : Step :=
  let back : Step := retry tok (b.setMode .inBody)
  match tok with
  | .ending => done b
  | .text t => if isSpaceOnly t then inBody implied tok b else back
  | .start tag => if tag.name = ("html" : Text) then done b else back
  | .stop _ => back
  | .remark => done (b.insertRemark (some 0))
  | .doctype _ => done b

def inFrameset (implied : Implied) (tok : Token) (b : Builder) : Step :=
  match tok with
  | .text t => done (b.insertText (t.filter isHtmlSpace))
  | .start tag =>
    if tag.name = ("frameset" : Text) then done (b.insertTag tag)
    else if tag.name = ("frame" : Text) then done (b.insertVoid tag)
    else if tag.name = ("noframes" : Text) then inHead implied tok b
    else done b
  | .stop name =>
    if name = ("frameset" : Text) ∧ !b.topIs ["html"] then
      let b := b.pop
      done (if b.topIs ["frameset"] then b else b.setMode .afterFrameset)
    else done b
  | .remark => done (b.insertRemark none)
  | _ => done b

def afterFrameset (implied : Implied) (tok : Token) (b : Builder) : Step :=
  match tok with
  | .text t => done (b.insertText (t.filter isHtmlSpace))
  | .start tag => if tag.name = ("noframes" : Text) then inHead implied tok b else done b
  | .stop name => done (if name = ("html" : Text) then b.setMode .afterAfterFrameset else b)
  | .remark => done (b.insertRemark none)
  | _ => done b

def afterAfterFrameset (implied : Implied) (tok : Token) (b : Builder) : Step :=
  match tok with
  | .text t => done (bodyText (t.filter isHtmlSpace) b)
  | .start tag => if tag.name = ("noframes" : Text) then inHead implied tok b else done b
  | .remark => done (b.insertRemark (some 0))
  | _ => done b

/-- What a token does in the mode of the construction. -/
def step (implied : Implied) (tok : Token) (b : Builder) : Step :=
  match b.mode with
  | .initial => initial tok b
  | .beforeHtml => beforeHtml implied tok b
  | .beforeHead => beforeHead implied tok b
  | .inHead => inHead implied tok b
  | .afterHead => afterHead implied tok b
  | .inBody => inBody implied tok b
  | .rawText => rawText tok b
  | .inTable => inTable implied tok b
  | .inCaption => inCaption implied tok b
  | .inColumnGroup => inColumnGroup implied tok b
  | .inTableBody => inTableBody implied tok b
  | .inRow => inRow implied tok b
  | .inCell => inCell implied tok b
  | .inSelect => inSelect implied tok b
  | .inSelectInTable => inSelectInTable implied tok b
  | .inTemplate => inTemplate implied tok b
  | .afterBody => afterBody implied tok b
  | .inFrameset => inFrameset implied tok b
  | .afterFrameset => afterFrameset implied tok b
  | .afterAfterBody => afterAfterBody implied tok b
  | .afterAfterFrameset => afterAfterFrameset implied tok b
  | .ignoring => done b

/-! Content of other vocabularies. -/

/-- The token is under the rules of another vocabulary. -/
def isForeign (tok : Token) (b : Builder) : Bool :=
  let e := b.topElement
  let (isStart, name) : Bool × Text := match tok with
    | .start tag => (true, tag.name)
    | _ => (false, [])
  let isText : Bool := match tok with
    | .text _ => true
    | _ => false
  if e.space = .html ∨ tok = .ending then false
  else if e.hostsText && (isText || isStart && name ∉ (["mglyph", "malignmark"] : List Text)) then
    false
  else if e.space = .math ∧ e.name = ("annotation-xml" : Text) ∧ isStart ∧ name = ("svg" : Text)
  then false
  else !(e.hostsHtml && (isStart || isText))

/-- The start tag cannot stand in another vocabulary. -/
def breaksOut (tag : Tag) : Bool :=
  tag.name ∈ breakoutNames ||
    tag.name == Text.ofString "font" && tag.attributes.any fun (key, _) =>
      key ∈ (["color", "face", "size"] : List Text)

/-- Closes foreign content up to a place where HTML may stand. -/
def leaveForeign (b : Builder) : Builder :=
  match b.open_.dropWhile fun i =>
      let e := b.element i
      !(e.space == .html || e.hostsHtml || e.hostsText) with
  | [] => b
  | rest => { b with open_ := rest }

/-- An end tag in foreign content closes the innermost element of its name there; beyond foreign
content it is under the rules of HTML. -/
def foreignStop (implied : Implied) (name : Text) (b : Builder) : Step :=
  let isNamed (i : Nat) : Bool := Text.lowerAscii (b.element i).name == name
  match b.open_.dropWhile fun i => (b.element i).space != .html && !isNamed i with
  | [] => done b
  | i :: outer =>
    if isNamed i && ((b.element i).space != .html || i == b.top) then
      done { b with open_ := outer }
    else step implied (.stop name) b

def foreign (implied : Implied) (tok : Token) (b : Builder) : Step :=
  match tok with
  | .text t =>
    let b := if t.all fun c => isHtmlSpace c || c == 0 then b else b.forbidFrameset
    done (b.insertText (replaceZeros t))
  | .remark => done (b.insertRemark none)
  | .start tag =>
    if breaksOut tag then retry tok (leaveForeign b)
    else
      let space := b.topElement.space
      let name := if space = .svg then svgName tag.name else tag.name
      done { beginForeign space name tag b with notRaw := true }
  | .stop name => foreignStop implied name b
  | _ => done b

/-- Treats a token until it is used up. -/
def feed : Nat → Token → Builder → Builder
  | 0, _, b => b
  | fuel + 1, tok, b =>
    let s := if isForeign tok b then foreign (feed fuel) tok b else step (feed fuel) tok b
    match s.again with
    | none => s.builder
    | some tok => feed fuel tok s.builder

/-- A token is looked at again no more often than this. -/
def patience : Nat := 4096

/-- Treats the tokens of a document, each of which takes at least one byte. -/
def run : Nat → Source → Builder → Builder
  | 0, _, b => b
  | fuel + 1, source, b =>
    let (tok, source) := source.next (b.topElement.space != .html)
    let b := feed patience tok { b with notRaw := false }
    if tok = .ending || b.overflown then b
    else run fuel (if b.notRaw then { source with raw := none } else source) b

end Insertion

/-- The tree of a document; `none` if too many elements are open at once. -/
def parse? (doc : Text) : Option Tree :=
  let b := Insertion.run (doc.length + 2) ⟨doc, none⟩ {}
  if b.overflown then none else some b.tree

end Literate.Html
