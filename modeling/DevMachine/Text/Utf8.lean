/-!
# UTF-8 text

Octets are decoded one at a time.  Between two octets the decoder holds the
sequence that has begun, if any: the bits read so far, how many octets are
still missing, and the range the next one has to lie in.  An octet outside
that range ends the sequence as malformed and is then looked at afresh, so a
malformed unit is always a maximal piece of some well-formed sequence.
-/

namespace DevMachine.Text

/-- Raw bytes, as they come from a file, a socket or a process. -/
abbrev Octets := List UInt8

namespace Utf8

/-- A multi-octet sequence that has begun. -/
structure Unfinished where
  bits : Nat
  missing : Nat
  low : UInt8 := 0x80
  high : UInt8 := 0xbf
  deriving DecidableEq, Repr

/-- What decoding yields: a scalar value, or one malformed piece. -/
inductive Piece
  | scalar (c : Char)
  | malformed
  deriving DecidableEq, Repr

/-- The first octet of a sequence. -/
def start (b : UInt8) : List Piece × Option Unfinished :=
  if b < 0x80 then ([.scalar (Char.ofNat b.toNat)], none)
  else if b < 0xc2 then ([.malformed], none)
  else if b < 0xe0 then ([], some { bits := b.toNat - 0xc0, missing := 1 })
  else if b = 0xe0 then ([], some { bits := 0, missing := 2, low := 0xa0 })
  else if b = 0xed then ([], some { bits := 0xd, missing := 2, high := 0x9f })
  else if b < 0xf0 then ([], some { bits := b.toNat - 0xe0, missing := 2 })
  else if b = 0xf0 then ([], some { bits := 0, missing := 3, low := 0x90 })
  else if b < 0xf4 then ([], some { bits := b.toNat - 0xf0, missing := 3 })
  else if b = 0xf4 then ([], some { bits := 4, missing := 3, high := 0x8f })
  else ([.malformed], none)

/-- One octet, read after the sequence that has begun. -/
def step : Option Unfinished → UInt8 → List Piece × Option Unfinished
  | none, b => start b
  | some u, b =>
    if u.low ≤ b ∧ b ≤ u.high then
      let bits := u.bits * 64 + (b.toNat - 0x80)
      if u.missing ≤ 1 then ([.scalar (Char.ofNat bits)], none)
      else ([], some { bits := bits, missing := u.missing - 1 })
    else
      let (pieces, next) := start b
      (.malformed :: pieces, next)

/-- All pieces of the octets, read after the sequence that has begun.  A
sequence cut off by the end is malformed. -/
def piecesFrom : Option Unfinished → Octets → List Piece
  | none, [] => []
  | some _, [] => [.malformed]
  | u, b :: rest =>
    let (pieces, next) := step u b
    pieces ++ piecesFrom next rest

def pieces (octets : Octets) : List Piece := piecesFrom none octets

/-- A malformed piece is shown as the replacement character. -/
def Piece.shown : Piece → Char
  | .scalar c => c
  | .malformed => '\ufffd'

def Piece.scalar? : Piece → Option Char
  | .scalar c => some c
  | .malformed => none

/-- The text of the octets with one replacement character for each malformed
piece. -/
def decodeLossy (octets : Octets) : String :=
  String.ofList ((pieces octets).map Piece.shown)

/-- The text of the octets, when they are well-formed throughout. -/
def decode? (octets : Octets) : Option String :=
  ((pieces octets).mapM Piece.scalar?).map String.ofList

def encode (s : String) : Octets := s.toUTF8.toList

end Utf8

end DevMachine.Text
