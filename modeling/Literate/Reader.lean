import Literate.Token
import Literate.Chunk.OptionLine
import Literate.Text.Quoted
import Literate.Log
import Literate.FileTree

/-! Reading a source into chunks. The reader takes one token after another; a fault is logged and
counted, and reading goes on. An operand or a closing control that it is waiting for is part of
its state, so that what a source means is a fold over its tokens. -/

namespace Literate.Reader

/-- What the rest of a source is read as: prose, code of an open chunk, or prose of one. -/
inductive Body where
  | top
  | code
  | document
deriving DecidableEq, Repr

/-- What the reader waits for before it goes on with the text. -/
inductive Pending where
  | nothing
  | options (kind : Chunk.Kind) (location : Location)
  | opener (chunk : Chunk)
  | referenceName (location : Location)
  | referenceEnd (name : List Char) (location : Location)
  | substitutionName (location : Location)
  | substitutionEnd (name : List Char) (location : Location)
  | identifiers
  | includePath (location : Location)
deriving DecidableEq, Repr

structure State where
  newlines : Nat := 0
  body : Body := .top
  /-- The chunks before the current one. -/
  before : List Chunk := []
  current : Chunk := Chunk.ofKind .anonymous []
  pending : Pending := .nothing
  errors : Nat := 0
  /-- Newlines of included sources. -/
  includedLines : Nat := 0
  log : List Log.Record := []
deriving Repr

/-- What reading one source gives: its chunks, the errors counted, the lines read and the log. -/
structure Outcome where
  chunks : List Chunk
  errors : Nat
  lines : Nat
  log : List Log.Record
deriving Repr

/-- What becomes of a request to include a source. -/
inductive Inclusion where
  /-- It is being read already. -/
  | cycle
  | unopened (error : FileError)
  /-- It was read, up to a failure if there was one. -/
  | read (outcome : Outcome) (failure : Option Text)

/-- What all steps over one source share. -/
structure Context where
  command : Char
  /-- A source that cannot be opened is only warned about. -/
  permitMissing : Bool
  substitutions : List (Text × Text)
  name : Text
  fetch : Text → Inclusion

namespace Context

def spell (ctx : Context) (kind : Control) : Text := Text.ofChars [ctx.command, kind.letter]

def substitution? (ctx : Context) (name : Text) (location : Location) : Option Text :=
  if name = ("theFile" : Text) then some ctx.name
  else if name = ("theLocation" : Text) then some location.text
  else ctx.substitutions.lookup name

end Context

namespace State

def here (ctx : Context) (s : State) : Location := ⟨ctx.name, s.newlines + 1⟩

def error (s : State) (message : Text) : State :=
  { s with errors := s.errors + 1, log := s.log ++ [⟨Log.error, message, []⟩] }

def warn (s : State) (message : Text) : State :=
  { s with log := s.log ++ [⟨Log.warn, message, []⟩] }

def warnAll (s : State) (messages : List Text) : State := messages.foldl warn s

/-- Counts a token that is a newline. -/
def advance (s : State) (t : Token) : State :=
  if t = .newline then { s with newlines := s.newlines + 1 } else s

def startAnonymous (s : State) : State :=
  { s with before := s.before ++ [s.current], current := Chunk.ofKind .anonymous [], body := .top }

def appendText (s : State) (text : Text) (location : Location) : State :=
  { s with current := s.current.appendText text location }

def append (s : State) (body : Command.Body) (location : Location) : State :=
  { s with current := s.current.append ⟨body, location⟩ }

/-- The control that closes the open body. -/
def closer (s : State) : Control :=
  match s.body with
  | .document => .closeDocument
  | _ => .closeCode

end State

def atPlace (location : Location) (message : Text) : Text :=
  "At " ++ location.text ++ ": " ++ message

/-- The controls that are wanted, between braces. -/
def wantedText (ctx : Context) (wanted : List Control) : Text :=
  [0x7B] ++ Text.join ", " (wanted.map ctx.spell) ++ [0x7D]

def expectedMessage (ctx : Context) (wanted : List Control) (found : Text) : Text :=
  "expected " ++ wantedText ctx wanted ++ ", found " ++ found

def endOfInputMessage (ctx : Context) (wanted : List Control) : Text :=
  "end of input, " ++ wantedText ctx wanted ++ " not found"

/-- The controls that may open the body of a chunk. -/
def openers (chunk : Chunk) : List Control :=
  if chunk.kind = .named then [.openCode, .openDocument] else [.openCode]

/-- Begins the body of a chunk. -/
def enter (chunk : Chunk) (body : Body) (s : State) : State :=
  { s with before := s.before ++ [s.current], current := chunk, body := body, pending := .nothing }

/-- The controls that end what the reader waits for. -/
def wanted : Pending → List Control
  | .opener chunk => openers chunk
  | .referenceEnd _ _ => [.closeReference]
  | .substitutionEnd _ _ => [.closeSubstitution]
  | _ => []

/-- Goes on after the control that was waited for, or after another in its place. -/
def resume (ctx : Context) (found : Token) (s : State) : State :=
  match s.pending with
  | .opener chunk =>
    if found = .control .openDocument then enter { chunk with kind := .document } .document s
    else enter chunk .code s
  | .referenceEnd name location =>
    let s := { s with pending := .nothing }
    if name = [] then s.error (atPlace location "empty chunk reference")
    else s.append (.reference (Text.ofChars name)) location
  | .substitutionEnd name location =>
    let s := { s with pending := .nothing }
    match ctx.substitution? (Text.ofChars name) location with
    | some value => s.appendText value location
    | none =>
      s.error (atPlace location ("unknown substitution '" ++ Text.ofChars name ++ "'"))
  | _ => s

/-- Takes a token where a control is wanted. Newlines are passed over; any other token is taken
in its place, with an error. -/
def expect (ctx : Context) (s : State) (t : Token) : State :=
  match t with
  | .newline => s
  | _ =>
    let want := wanted s.pending
    if want.any (fun k => t == .control k) then resume ctx t s
    else resume ctx t
      (s.error (atPlace (s.here ctx) (expectedMessage ctx want (t.text ctx.command))))

/-- Splices the chunks of another source in place of an include. -/
def splice (path : Text) (location : Location) (outcome : Outcome) (failure : Option Text)
    (s : State) : State :=
  let before := s.errors
  let s := { s with
    errors := s.errors + outcome.errors
    includedLines := s.includedLines + outcome.lines
    log := s.log ++ outcome.log }
  let s := match failure with
    | some cause => s.error (atPlace location ("reading '" ++ path ++ "': " ++ cause))
    | none => s
  let s := if s.errors > before then
      { s with log := s.log ++ [⟨Log.error,
        "Errors in included file '" ++ path ++ "', output is incomplete.", []⟩] }
    else s
  { s with
    before := s.before ++ [s.current] ++ outcome.chunks
    current := Chunk.ofKind .anonymous []
    body := .top }

def includeFile (ctx : Context) (path : Text) (location : Location) (s : State) : State :=
  if path = [] then
    s.error (atPlace location (ctx.spell .includeFile ++ " needs a file name"))
  else if s.body ≠ .top then
    s.error (atPlace location (ctx.spell .includeFile ++ " inside a chunk body"))
  else match ctx.fetch path with
    | .cycle =>
      s.error (atPlace location ("include cycle, '" ++ path ++ "' is already being read"))
    | .unopened e =>
      if ctx.permitMissing then s.warn (atPlace location ("include skipped: " ++ e.message))
      else s.error (atPlace location ("cannot include '" ++ path ++ "': " ++ e.message))
    | .read outcome failure => splice path location outcome failure s

/-- Describes a chunk from its option line. -/
def describe (ctx : Context) (kind : Chunk.Kind) (location : Location) (line : List Char)
    (s : State) : State :=
  let control : Control := if kind = .output then .outputChunk else .namedChunk
  let trimmed := Text.trimChars line
  let (chunk, s) : Chunk × State := match OptionLine.chunk kind trimmed with
    | .ok (chunk, warnings) => (chunk, s.warnAll (warnings.map (atPlace location)))
    | .error quote =>
      (Chunk.ofKind kind (Text.ofChars trimmed), s.error (atPlace location
        ("bad options " ++ Text.quoted (Text.ofChars line) ++ ": " ++
          OptionLine.unclosedMessage quote)))
  let s := if chunk.name = [] then
      s.warn (atPlace location (ctx.spell control ++ " has no chunk name"))
    else s
  { s with pending := .opener { chunk with location := location } }

/-- Takes the literal after a control, or nothing when another token follows. -/
def operand (ctx : Context) (s : State) (span : List Char) : State :=
  match s.pending with
  | .options kind location => describe ctx kind location span s
  | .referenceName location => { s with pending := .referenceEnd (Text.trimChars span) location }
  | .substitutionName location =>
    { s with pending := .substitutionEnd (Text.trimChars span) location }
  | .identifiers =>
    let s := { s with pending := .nothing }
    if s.body = .code then
      let names := (Text.wordsOfChars span).map Text.ofChars
      { s with current := { s.current with identifiers := s.current.identifiers ++ names } }
    else s.warn (atPlace (s.here ctx) (ctx.spell .identifiers ++ " outside a code chunk ignored"))
  | .includePath location =>
    includeFile ctx (Text.ofChars (Text.trimChars span)) location { s with pending := .nothing }
  | _ => s

def openChunk (ctx : Context) (kind : Chunk.Kind) (control : Control) (s : State) : State :=
  let s := if s.body = .top then s
    else s.error (atPlace (s.here ctx) (expectedMessage ctx [s.closer] (ctx.spell control)))
  { s with pending := .options kind (s.here ctx) }

def closeBody (ctx : Context) (control : Control) (s : State) : State :=
  let s := if s.body = .top ∨ control = s.closer then s
    else s.warn (atPlace (s.here ctx) (expectedMessage ctx [s.closer] (ctx.spell control)))
  s.startAnonymous

def crossReference (ctx : Context) (kind : CrossReference) (control : Control)
    (location : Location) (s : State) : State :=
  let s := if s.body = .code then
      s.warn (atPlace location ("cross reference " ++ ctx.spell control ++ " in code"))
    else s
  s.append (.crossReference kind) location

def extra (ctx : Context) (control : Control) (note : Text) (s : State) : State :=
  s.error ("Extra " ++ ctx.spell control ++ note ++ " near " ++ (s.here ctx).text)

/-- Does what a token asks for when nothing is pending. The token is counted already; `location`
is the position that the text gets. -/
def obey (ctx : Context) (location : Location) (s : State) : Token → State
  | .newline => s.appendText [Text.newline] location
  | .literal span => s.appendText (Text.ofChars span) location
  | .control kind =>
    match kind with
    | .literally => s.appendText (Text.utf8 ctx.command) location
    | .outputChunk => openChunk ctx .output kind s
    | .namedChunk => openChunk ctx .named kind s
    | .openCode | .openDocument => extra ctx kind " (possibly missing chunk name)" s
    | .closeCode | .closeDocument => closeBody ctx kind s
    | .openReference => { s with pending := .referenceName location }
    | .closeReference | .closeSubstitution => extra ctx kind [] s
    | .identifiers => { s with pending := .identifiers }
    | .fileIndex => crossReference ctx .files kind location s
    | .macroIndex => crossReference ctx .macros kind location s
    | .identifierIndex => crossReference ctx .identifiers kind location s
    | .openSubstitution => { s with pending := .substitutionName location }
    | .includeFile => { s with pending := .includePath location }

/-- Takes a token again that was looked at as an operand and is none. -/
def retake (ctx : Context) (s : State) (t : Token) : State :=
  match s.pending with
  | .nothing => obey ctx (s.here ctx) s t
  | _ => expect ctx s t

/-- One token. -/
def step (ctx : Context) (s : State) (t : Token) : State :=
  let counted := s.advance t
  match s.pending with
  | .nothing => obey ctx (s.here ctx) counted t
  | .opener _ | .referenceEnd _ _ | .substitutionEnd _ _ => expect ctx counted t
  | _ =>
    match t with
    | .literal span => operand ctx counted span
    | _ => retake ctx (operand ctx counted []) t

/-- Gives up what is pending when the source ends. A chunk without a body is kept. -/
def abandon (ctx : Context) (s : State) : State :=
  match s.pending with
  | .opener chunk =>
    enter chunk .top (s.error (atPlace (s.here ctx) (endOfInputMessage ctx (wanted s.pending))))
  | .referenceEnd _ _ | .substitutionEnd _ _ =>
    { s.error (atPlace (s.here ctx) (endOfInputMessage ctx (wanted s.pending))) with
      pending := .nothing }
  | _ => s

/-- The end of a source. -/
def finish (ctx : Context) (s : State) : State :=
  let s := abandon ctx (operand ctx s [])
  if s.body = .top then s
  else { s.error (atPlace (s.here ctx) (endOfInputMessage ctx [s.closer])) with body := .top }

def State.outcome (s : State) : Outcome :=
  ⟨s.before ++ [s.current], s.errors, s.newlines + s.includedLines, s.log⟩

/-- Reads the tokens of one source. -/
def readTokens (ctx : Context) (tokens : List Token) : Outcome :=
  (finish ctx (tokens.foldl (step ctx) {})).outcome

/-- Bytes to read and the failure that ends them, if one does. -/
structure Source where
  bytes : Text
  failure : Option Text := none
deriving DecidableEq, Repr

/-- An opened entry as a source; a directory fails before its first byte. -/
def Source.ofNode (path : Text) (node : FileNode) : Source :=
  match FileTree.contents path node with
  | .ok bytes => ⟨bytes, none⟩
  | .error e => ⟨[], some e.message⟩

structure Options where
  command : Char := Token.defaultCommand
  permitMissing : Bool := false
  substitutions : List (Text × Text) := []
deriving DecidableEq, Repr

/-- Options from what a user gives: a command character, the commands whose failures only warn, and
substitutions. -/
def Options.of (command : Char) (permit : List Text) (substitutions : List (Text × Text)) :
    Options :=
  { command := Token.commandOf command
    permitMissing := permit.any fun p => Text.trim p == Text.ofString "@i"
    substitutions }

/-- The values that every web can insert. -/
def defaultSubstitutions (version now directory : Text) : List (Text × Text) :=
  [("version", version), ("now", now), ("cwd", directory)]

/-- Where an include operand leads from a directory. -/
def resolveInclude (dir path : Text) : Text :=
  if Path.isAbsolute path then path else Path.join dir path

/-- Reads a source and, to the given depth, the sources that it includes. `reading` lists the
absolute paths that are being read. -/
def readSource (options : Options) (tree : FileTree) :
    Nat → List Text → (name dir : Text) → Source → Outcome
  | 0, _, name, _, source =>
    readTokens ⟨options.command, options.permitMissing, options.substitutions, name,
      fun _ => .cycle⟩ (Token.ofText options.command source.bytes)
  | depth + 1, reading, name, dir, source =>
    let fetch (path : Text) : Inclusion :=
      let resolved := resolveInclude dir path
      let absolute := tree.absolute resolved
      if absolute ∈ reading then .cycle
      else match tree.openEntry resolved with
        | .error e => .unopened e
        | .ok node =>
          let inner := Source.ofNode resolved node
          .read (readSource options tree depth (reading ++ [absolute]) path
            (Path.directory resolved) inner) inner.failure
    readTokens ⟨options.command, options.permitMissing, options.substitutions, name, fetch⟩
      (Token.ofText options.command source.bytes)

/-- No more sources than this can be open at once: the first, and one for each entry. -/
def includeDepth (tree : FileTree) : Nat := tree.entries.length + 2

/-- Prose chunks without commands say nothing. -/
def isVacuous (c : Chunk) : Bool := c.kind == .anonymous && c.commands.isEmpty

inductive LoadError where
  /-- The web cannot be opened. -/
  | unopened (error : FileError)
  /-- Reading the named source failed. -/
  | unread (name cause : Text)
deriving DecidableEq, Repr

def LoadError.message : LoadError → Text
  | .unopened e => "open web: " ++ e.message
  | .unread name cause => "read " ++ name ++ ": " ++ cause

/-- A web as it was loaded: chunks or the failure, and what was counted on the way. -/
structure Loaded where
  chunks : Except LoadError (List Chunk)
  errors : Nat
  lines : Nat
  log : List Log.Record

/-- Loads a source under a name, which relative includes are resolved against. -/
def load (options : Options) (tree : FileTree) (name : Text) (source : Source) : Loaded :=
  let outcome := readSource options tree (includeDepth tree) [tree.absolute name] name
    (Path.directory name) source
  let chunks := match source.failure with
    | some cause => .error (.unread name cause)
    | none => .ok (outcome.chunks.filter fun c => !isVacuous c)
  ⟨chunks, outcome.errors, outcome.lines, outcome.log⟩

/-- Opens and loads the web at a path. -/
def loadFile (options : Options) (tree : FileTree) (path : Text) : Loaded :=
  match tree.openEntry path with
  | .error e => ⟨.error (.unopened e), 0, 0, []⟩
  | .ok node => load options tree path (Source.ofNode path node)

end Literate.Reader
