import Literate.Text

/-! Paths as text: rules that look at the words of a path and never at a file. -/

namespace Literate.Path

def slash : UInt8 := 47

def isAbsolute (path : Text) : Bool := path.head? == some slash

/-- Takes one component on top of those before it, the last of which is the head. A climb cancels
the component below it; at the root there is nothing to climb to. -/
def pushComponent (rooted : Bool) (stack : List Text) (part : Text) : List Text :=
  if part = [] ∨ part = ("." : Text) then stack
  else if part = (".." : Text) then
    match stack with
    | [] => if rooted then [] else [part]
    | top :: rest => if top = (".." : Text) then part :: stack else rest
  else part :: stack

/-- The components that are left when empty ones, `.` and cancelled climbs are taken out. -/
def components (path : Text) : List Text :=
  ((Text.split slash path).foldl (pushComponent (isAbsolute path)) []).reverse

/-- The shortest path with the same meaning. -/
def clean (path : Text) : Text :=
  let joined := Text.join "/" (components path)
  if isAbsolute path then "/" ++ joined else if joined = [] then "." else joined

def join (dir path : Text) : Text :=
  if dir = [] then if path = [] then [] else clean path
  else clean (dir ++ "/" ++ path)

/-- The part of a path up to and including its last slash, and the part after it. -/
def cutLast (path : Text) : Text × Text :=
  let base := (path.reverse.takeWhile (· != slash)).reverse
  (path.take (path.length - base.length), base)

def directory (path : Text) : Text := clean (cutLast path).1

/-- The last component of a path; `.` for an empty path and `/` for the root. -/
def base (path : Text) : Text :=
  if path = [] then "."
  else
    let trimmed := (path.reverse.dropWhile (· == slash)).reverse
    if trimmed = [] then "/" else (cutLast trimmed).2

/-- What follows the last dot of the last component, the dot included. -/
def extension (path : Text) : Text :=
  let last := (cutLast path).2
  if 46 ∈ last then 46 :: (last.reverse.takeWhile (· != 46)).reverse else []

/-- File names that are taken for webs when a directory is listed. No character outside ASCII has
one of these letters as its lower case. -/
def isWeb (path : Text) : Bool := Text.lowerAscii (extension path) ∈ ([".w", ".web"] : List Text)

/-- The path stays at or below the directory that it is resolved against. -/
def isLocal (path : Text) : Bool :=
  !isAbsolute path && path != [] && (components path).head? != some ".."

end Literate.Path
