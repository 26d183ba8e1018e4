import Literate.Job.Pool
import Literate.Json
import Literate.Service.Route
import Literate.Weave.Title

/-! A service that shows the webs of a directory: their chunks and cross references, and their
documents and output files as they would be written. Builds are queued for a pool of workers. -/

namespace Literate

structure Service where
  site : Build.Site
  /-- The directory of the webs. -/
  root : Text := "."
  /-- The workers, if builds are possible. -/
  pool : Option Job.Pool := none
  /-- From which the identifiers of jobs are made. -/
  clock : Job.Id.Clock := {}

namespace Service

structure Request where
  method : Text := "GET"
  target : Text
  headers : List (Text × Text) := []
  /-- The time in milliseconds and random bytes, for the identifier of a job. -/
  moment : Nat × Text := (0, [])
deriving DecidableEq, Repr

/-- The value of a header, whose name may be in any case. -/
def Request.header (r : Request) (name : Text) : Text :=
  ((r.headers.find? fun h => Text.lowerAscii h.1 == Text.lowerAscii name).map Prod.snd).getD []

inductive Body where
  | empty
  | text (contentType bytes : Text)
  | json (value : Json)

structure Response where
  status : Nat
  body : Body
  etag : Option Text := none
  allowed : List Text := []

namespace Response

def json (status : Nat) (members : List (Text × Json)) : Response :=
  ⟨status, .json (.object members), none, []⟩

def error (status : Nat) (message : Text) : Response := json status [("error", .text message)]

def plainText : Text := "text/plain; charset=utf-8"

def ofMiss : Miss → Response
  | .notFound => ⟨404, .text plainText "404 page not found\n", none, []⟩
  | .notAllowed allowed => ⟨405, .empty, none, allowed⟩

/-- Content with a tag that is its digest. A client that has it already gets only the tag. -/
def content (r : Request) (contentType bytes : Text) : Response :=
  let etag : Text := "\"" ++ Digest.hex bytes ++ "\""
  if r.header "If-None-Match" = etag then ⟨304, .empty, some etag, []⟩
  else ⟨200, .text contentType bytes, some etag, []⟩

end Response

/-- A failure to render that is due to the web. -/
def renderError : Weave.Error → Response
  | .fault f => .error 422 f.message
  | .layout => .error 500 Weave.Error.layout.failure.message

abbrev Answer := Response × List Log.Record

/-- Names of webs: a single component with an extension of webs. -/
def isWebName (name : Text) : Bool := name == Path.base name && Path.isWeb name

/-- The answer to what is no request. -/
def badRequest : Response := ⟨400, .text Response.plainText "400 Bad Request", none, []⟩

def notAWeb (name : Text) : Response := .error 404 ("not a web: " ++ Text.quoted name)

def webNotFound : Response := .error 404 "web not found"

/-- Loads a web and goes on with it if it is without errors. -/
def withWeb (s : Service) (tree : FileTree) (name : Text) (go : Build.Loaded → Answer) : Answer :=
  if !isWebName name then (notAWeb name, [])
  else
    match Build.load s.site tree (Path.join s.root name) with
    | (.error e, log) =>
      let response := if e.cause = .noEntry then webNotFound
        else Response.error 500 ("failed to read web: " ++ e.message)
      (response, Log.all [("web", .text name)] log)
    | (.ok loaded, log) =>
      let log := Log.all [("web", .text name)] log
      if loaded.errors > 0 then (.error 422 (Build.syntaxErrors loaded.errors), log)
      else
        let (response, more) := go loaded
        (response, log ++ more)

/-- The title of the document of a web; empty if it has none or cannot be woven. -/
def title (s : Service) (tree : FileTree) (path : Text) : Text :=
  match Build.load s.site tree path, Weave.markup? s.site.settings.markup with
  | (.ok loaded, _), some m =>
    if loaded.errors > 0 then []
    else match Weave.render m loaded.web with
      | (.ok doc, _) => Weave.title m doc
      | (.error _, _) => []
  | _, _ => []

abbrev Members := List (Text × Json)

def member (name : Text) (value : Json) : Members := [(name, value)]

/-- A member that is left out when its text is empty. -/
def textMember (name value : Text) : Members :=
  if value = [] then [] else [(name, .text value)]

def textsMember (name : Text) (values : List Text) : Members :=
  if values = [] then [] else [(name, .list (values.map .text))]

/-- One web in the listing, with the status of its last build. -/
def webMembers (s : Service) (tree : FileTree) (name : Text) : Members :=
  let path := Path.join s.root name
  let build : Members := match s.pool.bind fun p => p.store.latest? path with
    | some j => textMember "status" j.status.word ++ textMember "job_id" j.id
    | none => []
  member "name" (.text name) ++ textMember "title" (s.title tree path) ++ build

def listWebs (s : Service) (tree : FileTree) : Answer :=
  match tree.readDirectory s.root with
  | .error e => (.error 500 ("failed to list webs: " ++ e.message), [])
  | .ok entries =>
    let names := entries.filterMap fun (name, node) =>
      if node ≠ .directory ∧ Path.isWeb name then some name else none
    (.json 200 [("webs", .list (names.map fun n => .object (s.webMembers tree n)))], [])

/-- One chunk: what it is, what it refers to and what refers to it. -/
def chunkMembers (w : Web) (cs : Citations) (i : Nat) : Members :=
  let c := w.chunk i
  let seq : Members := if w.seq i = 0 then [] else member "seq" (.number (w.seq i))
  member "kind" (.text c.kind.word) ++ textMember "name" c.name ++
    textMember "full_name" (w.fullName i) ++ seq ++ member "location" (.text c.location.text) ++
    textsMember "options" c.options ++ textsMember "def_names" c.identifiers ++
    textsMember "references" c.referenceNames ++
    textsMember "used_by" ((w.usedBy i).map w.displayName) ++
    textsMember "within" ((cs.ancestry w i).map w.displayName)

/-- The citations that rendering all output files records, as far as each can be rendered. -/
def citationsOf (w : Web) : Citations :=
  (w.files.foldl (fun m i => (Tangle.render w false i m).2) ({} : Tangle.Memory)).citations

def chunkList (name : Text) (loaded : Build.Loaded) : Response :=
  let w := loaded.web
  let cs := citationsOf w
  .json 200 [("chunks", .list ((List.range w.size).map fun i => .object (chunkMembers w cs i))),
    ("lines", .number loaded.lines), ("web", .text name)]

def crossReferences (w : Web) : Response :=
  let entry (name : Text) (chunks : List Nat) : Json :=
    .object [("name", .text name), ("seqs", .list (chunks.map fun i => .number (w.seq i)))]
  .json 200 [("files", .list (w.files.map fun i => entry (w.chunk i).name [i])),
    ("macros", .list (w.macros.map fun (name, defs) => entry name defs)),
    ("userids", .list (w.userIds.map fun (name, places) => entry name places))]

def document (r : Request) (m : Weave.Markup) (w : Web) : Answer :=
  match Weave.render m w with
  | (.error e, log) => (renderError e, log)
  | (.ok doc, log) =>
    let contentType : Text :=
      if m.extension = (".html" : Text) then "text/html; charset=utf-8" else Response.plainText
    (.content r contentType doc, log)

def outputFile (s : Service) (r : Request) (name : Text) (w : Web) : Response :=
  match w.files.find? fun i => (w.chunk i).name == name with
  | none => .error 404 ("no output file " ++ Text.quoted name)
  | some i =>
    match (Tangle.render w s.site.settings.lineNumbers i {}).1 with
    | .error f => .error 422 f.message
    | .ok code => .content r Response.plainText code

def buildsDisabled : Response := .error 503 "builds are disabled"

/-- Queues a build. Its files have to stay in the output directory. -/
def queueBuild (s : Service) (tree : FileTree) (r : Request) (name : Text) : Response × Service :=
  match s.pool with
  | none => (buildsDisabled, s)
  | some pool =>
    let path := Path.join s.root name
    if !isWebName name then (notAWeb name, s)
    else match tree.stat path with
      | .error _ => (webNotFound, s)
      | .ok _ =>
        let (id, clock) := Job.Id.next r.moment.1 r.moment.2 s.clock
        match pool.submit { id, path, confined := true } false with
        | (some refusal, pool) =>
          (.error 503 refusal.failure.message, { s with clock, pool := some pool })
        | (none, pool) =>
          (.json 202 [("job_id", .text id), ("poll_url", .text ("/api/jobs/" ++ id)),
            ("status", .text Build.Status.queued.word)], { s with clock, pool := some pool })

def summaryJson (s : Build.Summary) : Json :=
  let texts (ts : List Text) : Json := .list (ts.map .text)
  .object (member "lines" (.number s.lines) ++ member "chunks" (.number s.chunks) ++
    member "parse_errors" (.number s.parseErrors) ++ member "written" (texts s.written) ++
    member "unchanged" (texts s.unchanged) ++ textMember "document" s.document ++
    member "errors" (texts s.errors))

def jobStatus (s : Service) (id : Text) : Response :=
  match s.pool with
  | none => buildsDisabled
  | some pool =>
    match pool.store.get? id with
    | none => .error 404 "job not found"
    | some j => .json 200 (member "job_id" (.text j.id) ++ member "path" (.text j.path) ++
        member "status" (.text j.status.word) ++ member "phase" (.text j.phase) ++
        textMember "content_hash" j.hash ++ member "summary" (summaryJson j.summary))

def health (s : Service) : Response :=
  let depth : Members := match s.pool with
    | some p => member "queue_depth" (.number p.depth)
    | none => []
  .json 200 (depth ++ member "status" (.text "ok") ++ member "version" (.text s.site.version))

def webPage (s : Service) (tree : FileTree) (r : Request) (name : Text) : Page → Answer × Service
  | .chunks => (s.withWeb tree name fun l => (chunkList name l, []), s)
  | .crossReferences => (s.withWeb tree name fun l => (crossReferences l.web, []), s)
  | .document markup =>
    match Weave.markup? markup with
    | none => ((.error 404 (Weave.unknownMarkup markup), []), s)
    | some m => (s.withWeb tree name fun l => document r m l.web, s)
  | .file file => (s.withWeb tree name fun l => (s.outputFile r file l.web, []), s)
  | .build =>
    let (response, s) := s.queueBuild tree r name
    ((response, []), s)

/-- Checks the key of a request, if one is needed. -/
def refusal? (s : Service) (r : Request) (path : Text) : Option Answer :=
  if s.site.settings.apiKey = [] then none
  else match Text.after? "Bearer " (r.header "Authorization") with
    | none => some (.error 401 "missing authorization", [])
    | some key =>
      if key = s.site.settings.apiKey then none
      else some (.error 401 "invalid api key",
        [⟨Log.warn, "rejected api key", [("path", .text path)]⟩])

def follow (s : Service) (tree : FileTree) (r : Request) : Route → Answer × Service
  | .health => ((s.health, []), s)
  | .webs => (s.listWebs tree, s)
  | .web name (.ok page) => s.webPage tree r name page
  | .web _ (.error m) => ((.ofMiss m, []), s)
  | .job id => ((s.jobStatus id, []), s)
  | .miss m => ((.ofMiss m, []), s)

/-- The record of a request that has been answered. -/
def requestRecord (method path : Text) (status : Nat) : Log.Record :=
  ⟨if status ≥ 500 then Log.error else Log.info, "request",
    [("method", .text method), ("path", .text path), ("status", .number status)]⟩

/-- Answers a request. -/
def handle (s : Service) (tree : FileTree) (r : Request) : Answer × Service :=
  match Target.parse? r.target with
  | none => ((badRequest, []), s)
  | some target =>
    let route := Route.find r.method target.routed
    let refusal := if route.isGuarded then s.refusal? r target.path else none
    let ((response, log), s) := match refusal with
      | some answer => (answer, s)
      | none => s.follow tree r route
    ((response, log ++ [requestRecord r.method target.path response.status]), s)

/-- Lets the workers do what is queued. -/
def settle (s : Service) (tree : FileTree) : Service × FileTree × List Log.Record :=
  match s.pool with
  | none => (s, tree, [])
  | some pool =>
    let (pool, tree, log) := pool.drain s.site tree
    ({ s with pool := some pool }, tree, log)

end Service

end Literate
