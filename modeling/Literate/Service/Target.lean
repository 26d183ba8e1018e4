import Literate.Text

/-! Request targets. A target has a path, in which octets may be written as a percent sign and two
digits, and a query, which is not looked at. -/

namespace Literate.Service

structure Target where
  /-- The path without escapes. -/
  path : Text
  /-- The path that routes are found by: as it was written if it is not written in the usual
  way, and without escapes otherwise. -/
  routed : Text
deriving DecidableEq, Repr

namespace Target

/-- Replaces escapes by the octets they stand for; `none` if one is incomplete. -/
def decode : Text → Option Text
  | [] => some []
  | 37 :: a :: b :: rest =>
    if Text.isHexByte a && Text.isHexByte b then
      (decode rest).map ((16 * Text.hexValue a + Text.hexValue b).toUInt8 :: ·)
    else none
  | b :: rest => if b = 37 then none else (decode rest).map (b :: ·)

/-- Octets that are usually written as they are. -/
def isPlain (b : UInt8) : Bool :=
  Text.isLetterByte b || Text.isDigitByte b || b ∈ Text.ofString "-_.~$&+,/:;=@"

/-- The usual way to write a path. -/
def encode (path : Text) : Text :=
  path.flatMap fun b =>
    if isPlain b then [b]
    else [37, Text.hexUpperDigit (b.toNat / 16), Text.hexUpperDigit (b.toNat % 16)]

def ofPath? (written : Text) : Option Target :=
  (decode written).map fun path => ⟨path, if encode path = written then path else written⟩

/-- A byte of a scheme after its first letter. -/
def isSchemeByte (b : UInt8) : Bool :=
  Text.isLetterByte b || Text.isDigitByte b || b ∈ Text.ofString "+-."

/-- What follows the scheme of an absolute target and its colon. -/
def afterScheme? : Text → Option Text
  | [] => none
  | b :: rest =>
    match Text.isLetterByte b, rest.dropWhile isSchemeByte with
    | true, 58 :: rest => some rest
    | _, _ => none

/-- Reads what stands before the query: a path, or a scheme with a host and a path. After a scheme
that no slash follows there is no path. -/
def ofWritten? (t : Text) : Option Target :=
  match afterScheme? t with
  | some (47 :: 47 :: rest) => ofPath? (rest.dropWhile (· != 47))
  | some (47 :: rest) => ofPath? (47 :: rest)
  | some _ => some ⟨[], []⟩
  | none => if t.head? = some 47 then ofPath? t else none

/-- Reads a target, which may also be an asterisk. -/
def parse? (t : Text) : Option Target :=
  if t.any fun b => b < 0x20 || b == 0x7F then none
  else if t = ("*" : Text) then some ⟨t, t⟩
  else ofWritten? (t.takeWhile (· != 63))

end Target

end Literate.Service
