import Literate.Text

/-! Identifiers of jobs: 128 bits in base 32, of which the first are a time in milliseconds, so
that they sort by the order of their making. -/

namespace Literate.Job.Id

/-- The digits, in ascending order. Letters that are easily misread are left out. -/
def alphabet : Text := "0123456789ABCDEFGHJKMNPQRSTVWXYZ"

/-- A number of 128 bits in two words. -/
structure Wide where
  high : UInt64
  low : UInt64
deriving DecidableEq, Repr

namespace Wide

/-- The word that up to eight bytes spell, the most significant first. -/
def word (bytes : Text) : UInt64 := bytes.foldl (fun n b => n <<< 8 ||| b.toUInt64) 0

def ofBytes (bytes : Text) : Wide := ⟨word (bytes.take 8), word (bytes.drop 8)⟩

/-- The digit of the last five bits. -/
def lastDigit (w : Wide) : UInt8 := alphabet.getD (w.low &&& 31).toNat 0

/-- Moves all bits five places down. Those that leave the high word enter the low one. -/
def shift (w : Wide) : Wide := ⟨w.high >>> 5, w.low >>> 5 ||| w.high <<< 59⟩

/-- The last `count` digits in base 32, the most significant first. -/
def digits : Nat → Wide → Text
  | 0, _ => []
  | count + 1, w => digits count w.shift ++ [w.lastDigit]

end Wide

/-- Sixteen bytes as 26 digits. The first stands for three bits only. -/
def encode (bytes : Text) : Text := (Wide.ofBytes bytes).digits 26

/-- What is kept between identifiers: the latest time, and how many had that time. -/
structure Clock where
  time : Nat := 0
  sequence : UInt16 := 0
deriving DecidableEq, Repr

/-- Takes a clock reading. A reading that does not pass the latest is taken for the latest. -/
def Clock.tick (now : Nat) (c : Clock) : Clock :=
  if now ≤ c.time then { c with sequence := c.sequence + 1 } else ⟨now, 0⟩

def bigEndian (width n : Nat) : Text :=
  (List.range width).map fun i => (n >>> (8 * (width - 1 - i)) % 256).toUInt8

/-- Six bytes of time, two of sequence and eight of chance. -/
def Clock.bytes (c : Clock) (chance : Text) : Text :=
  bigEndian 6 c.time ++ bigEndian 2 c.sequence.toNat ++ (chance.take 8 ++ List.replicate 8 0).take 8

/-- A new identifier, from a clock reading and random bytes. -/
def next (now : Nat) (chance : Text) (c : Clock) : Text × Clock :=
  let c := c.tick now
  (encode (c.bytes chance), c)

/-- Identifiers for a sequence of clock readings. -/
def series : List (Nat × Text) → Clock → List Text
  | [], _ => []
  | (now, chance) :: rest, c =>
    let (id, c) := next now chance c
    id :: series rest c

end Literate.Job.Id
