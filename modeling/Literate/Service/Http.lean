import Literate.Service

/-! Requests and responses as they are sent. Each connection carries one of either. -/

namespace Literate.Service

/-- What ends a line. -/
def lineEnd : Text := "\r\n"

/-- The head of a request and what follows the empty line that ends it; `none` if that is still to
come. -/
def cutHead? (received : Text) : Option (Text × Text) := Text.cut? (lineEnd ++ lineEnd) received

/-- The lines of a text of which each but the last is ended. -/
def headLines (head : Text) : List Text := Text.split Text.newline (Text.replace lineEnd "\n" head)

def header? (line : Text) : Option (Text × Text) :=
  (Text.cut? ":" line).map fun (name, value) => (name, Text.trim value)

/-- Reads the head of a request. -/
def Request.ofHead? (moment : Nat × Text) (head : Text) : Option Request :=
  match headLines head with
  | [] => none
  | first :: rest =>
    match Text.split 32 first with
    | [method, target, _] => some { method, target, headers := rest.filterMap header?, moment }
    | _ => none

def statusWord : Nat → Text
  | 200 => "OK"
  | 202 => "Accepted"
  | 304 => "Not Modified"
  | 400 => "Bad Request"
  | 401 => "Unauthorized"
  | 404 => "Not Found"
  | 405 => "Method Not Allowed"
  | 422 => "Unprocessable Entity"
  | 500 => "Internal Server Error"
  | 503 => "Service Unavailable"
  | _ => []

/-- The type of a body, if it has one, and its bytes. -/
def Body.content : Body → Option Text × Text
  | .empty => (none, [])
  | .text contentType bytes => (some contentType, bytes)
  | .json value => (some "application/json", Json.render .document value ++ "\n")

/-- The bytes of a response. -/
def Response.bytes (r : Response) : Text :=
  let (contentType, content) := r.body.content
  let headerLine (name : Text) (value : Text) : Text := name ++ ": " ++ value
  let types := contentType.toList.map (headerLine "Content-Type")
  let tags := r.etag.toList.map (headerLine "ETag")
  let allowed := r.allowed.map (headerLine "Allow")
  let status : Text := "HTTP/1.1 " ++ Text.ofNat r.status ++ " " ++ statusWord r.status
  Text.join lineEnd
    ([status] ++ types ++ tags ++ allowed ++
      [headerLine "Content-Length" (Text.ofNat content.length), headerLine "Connection" "close", [],
        content])

end Literate.Service
