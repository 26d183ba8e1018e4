import Literate.Program
import Literate.Service.Http
import Std.Async.TCP
import Std.Time.DateTime.Timestamp

/-! The program as it is started. It takes in the files that a run may look at, runs on them, and
writes down what has changed. -/

namespace Literate.Main

def bytesOf (t : Text) : ByteArray := ⟨t.toArray⟩

def stringOf (t : Text) : String := (String.fromUTF8? (bytesOf t)).getD (String.ofList t.chars)

def textOf (b : ByteArray) : Text := b.data.toList

def pathOf (place : List Text) : String := stringOf ("/" ++ Text.join "/" place)

def placeOf (path : String) : List Text := Path.components (Text.ofString path)

/-- Milliseconds since 1970. -/
def clock : IO Int := do
  return (← Std.Time.Timestamp.now).toMillisecondsSinceUnixEpoch.toInt

/-- A clock reading and random bytes. -/
def moment : IO (Nat × Text) := do
  return ((← clock).toNat, textOf (← IO.getRandomBytes 8))

/-- The files and directories below a directory. Links to directories are not followed, what
cannot be read is left out, and so is what hidden directories hold. -/
partial def entriesBelow (place : List Text) : IO (Array (List Text × FileNode)) := do
  let mut found := #[]
  for entry in ← ((← IO.currentDir) / pathOf place).readDir do
    let here := place ++ [Text.ofString entry.fileName]
    if ← entry.path.isDir then
      unless (← entry.path.symlinkMetadata).type == .symlink do
        found := found.push (here, .directory)
        unless entry.fileName.startsWith "." do
          found := found ++ (← entriesBelow here)
    else
      match ← (IO.FS.readBinFile entry.path).toBaseIO with
      | .ok bytes => found := found.push (here, .file (textOf bytes))
      | .error _ => pure ()
  return found

/-- The places that words of a command line name, or the directories that they lie in. -/
def directoriesOf (words : List String) : IO (List (List Text)) := do
  let mut found := []
  for word in words do
    let path := (← IO.currentDir) / word
    if ← path.isDir then
      found := found ++ [placeOf (← IO.FS.realPath path).toString]
    else if ← path.pathExists then
      found := found ++ [(placeOf (← IO.FS.realPath path).toString).dropLast]
  return found

/-- The places that do not lie below another one before them. -/
def outermost (places : List (List Text)) : List (List Text) :=
  places.foldl (fun kept p => if kept.any (·.isPrefixOf p) then kept else kept ++ [p]) []

/-- Takes in the files below the working directory and below those that words name. -/
def takeIn (words : List String) : IO FileTree := do
  let current := placeOf (← IO.FS.realPath (← IO.currentDir)).toString
  let places := outermost (current :: (← directoriesOf words))
  let mut entries := #[]
  for place in places do
    entries := entries ++ (← entriesBelow place)
  let above := places.flatMap fun p => (List.range p.length).map fun n => p.take (n + 1)
  return { entries := above.eraseDups.map (·, FileNode.directory) ++ entries.toList, current }

/-- Writes what differs from the files that were taken in. A file appears under its name only when
it is complete. -/
def writeBack (before later : FileTree) : IO Unit := do
  for (place, node) in later.entries do
    unless before.get? place == some node do
      match node with
      | .directory => IO.FS.createDirAll (pathOf place)
      | .file bytes =>
        let fresh := pathOf place ++ ".new"
        IO.FS.writeBinFile fresh (bytesOf bytes)
        IO.FS.rename fresh (pathOf place)

def environment : IO Settings.Environment := do
  let mut found := []
  for name in Settings.variableNames do
    if let some value ← IO.getEnv (stringOf name) then
      found := found ++ [(name, Text.ofString value)]
  return found

/-- Shows log records on standard error. -/
def showLog (o : Log.Console.Options) (records : List Log.Record) : IO Unit := do
  let stamp := Calendar.stamp (← clock)
  for line in records.filterMap (Log.Console.line? o (some stamp) {}) do
    (← IO.getStderr).write (bytesOf (line ++ "\n"))

/-- The address that a service listens at: a host, which may be left out, and a port. -/
def socketAddress? (address : Text) : Option Std.Net.SocketAddress := do
  let (host, port) ← Text.cut? ":" address
  let port ← Text.toNat? port
  let host ← Std.Net.IPv4Addr.ofString (if host = [] then "0.0.0.0" else stringOf host)
  return .v4 ⟨host, port.toUInt16⟩

open Std.Async.TCP.Socket (Client Server)

/-- The longest head of a request that is waited for. -/
def headLimit : Nat := 65536

/-- Receives the head of a request. -/
partial def receiveHead (client : Client) (received : Text) : IO (Option Text) := do
  match Service.cutHead? received with
  | some (head, _) => return some head
  | none =>
    if received.length > headLimit then return none
    match ← (client.recv? 4096).block with
    | some bytes => receiveHead client (received ++ textOf bytes)
    | none => return none

/-- Answers the request of a client, and then lets the workers do what is queued. -/
def answerClient (o : Log.Console.Options) (service : Service) (client : Client) : IO Service := do
  let request := (← receiveHead client []).bind (Service.Request.ofHead? (← moment))
  let tree ← takeIn [stringOf service.root]
  let ((response, log), service) := match request with
    | some r => service.handle tree r
    | none => ((Service.badRequest, []), service)
  (client.send (bytesOf response.bytes)).block
  client.shutdown.block
  showLog o log
  let (service, later, log) := service.settle tree
  writeBack tree later
  showLog o log
  return service

/-- Answers one client after the other. -/
partial def answerClients (o : Log.Console.Options) (service : Service) (server : Server) :
    IO Unit := do
  let client ← server.accept.block
  let service ← try answerClient o service client catch _ => pure service
  answerClients o service server

/-- Listens for clients; a failure to do so is logged. -/
def serve (inv : Program.Invocation) (s : Settings) (root : Text) (tree : FileTree) :
    IO UInt32 := do
  let o := Program.consoleOf s
  let failed (message : Text) : IO UInt32 := do
    showLog o [⟨Log.error, "server error", [("error", .text message)]⟩]
    return 1
  showLog o [Program.listening inv s root]
  match socketAddress? s.address with
  | none => failed ("listen tcp: address " ++ s.address ++ ": no host and port")
  | some address =>
    try
      let server ← Server.mk
      server.bind address
      server.listen 128
      let pool := ({} : Job.Pool).start s.workers
      answerClients o { site := Program.siteOf inv tree s, root, pool := some pool } server
      return 0
    catch e => failed (Text.ofString (toString e))

/-- Prints what a run has to say. -/
def report (r : Program.Result) : IO UInt32 := do
  showLog r.console r.log
  (← IO.getStdout).write (bytesOf r.output)
  match r.refusal with
  | none => return 0
  | some (.failed .reported) => return 1
  | some refusal =>
    (← IO.getStderr).write (bytesOf ("litweb: " ++ refusal.failure.message ++ "\n"))
    return 1

end Literate.Main

open Literate in
def main (arguments : List String) : IO UInt32 := do
  let now ← Main.clock
  let inv : Program.Invocation :=
    { arguments := arguments.map Text.ofString
      environment := ← Main.environment
      now := now.fdiv 1000
      moment := ← Main.moment }
  let tree ← Main.takeIn arguments
  match Program.plan inv tree with
  | .ok (.serve s root) => Main.serve inv s root tree
  | _ =>
    let r := Program.run inv tree
    Main.writeBack tree r.tree
    Main.report r
