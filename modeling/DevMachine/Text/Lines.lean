import DevMachine.Text.Utf8

/-!
# Lines of an octet stream

Output arrives in chunks that need not end where lines end.  A line buffer
keeps the octets behind the last line feed and gives out each line once its
line feed has come.  Lines are decoded after they have been cut, one trailing
carriage return is dropped, and what is left at the end without a line feed is
a last line unless it is empty.
-/

namespace DevMachine.Text

/-- The finished lines at the front of some octets, and the rest behind the
last line feed. -/
def cutLines : Octets → List Octets × Octets
  | [] => ([], [])
  | b :: rest =>
    let (lines, unfinished) := cutLines rest
    if b = 0x0a then ([] :: lines, unfinished)
    else
      match lines with
      | [] => ([], b :: unfinished)
      | line :: more => ((b :: line) :: more, unfinished)

/-- Drops one carriage return from the end of a line. -/
def dropReturn (line : Octets) : Octets :=
  if line.getLast? = some 0x0d then line.dropLast else line

def lineText (line : Octets) : String := Utf8.decodeLossy (dropReturn line)

/-- The octets of a line that has not ended yet. -/
structure LineBuffer where
  unfinished : Octets := []
  deriving DecidableEq, Repr

/-- Takes in a chunk and gives the lines that it ends. -/
def LineBuffer.push (buffer : LineBuffer) (chunk : Octets) : List String × LineBuffer :=
  let (lines, rest) := cutLines (buffer.unfinished ++ chunk)
  (lines.map lineText, { unfinished := rest })

/-- The last line, if it lacks its line feed, and an empty buffer. -/
def LineBuffer.finish (buffer : LineBuffer) : Option String × LineBuffer :=
  (if buffer.unfinished = [] then none else some (lineText buffer.unfinished), {})

end DevMachine.Text
