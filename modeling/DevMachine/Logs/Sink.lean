/-!
# Sinks of lines

Ordered output leaves through sinks.  A sink keeps the lines written to it for
as long as somebody listens; a sink may break on a line, which is then not
written and ends whoever was writing it.
-/

namespace DevMachine.Logs

structure Sink where
  breaksOn : Option String := none
  discards : Bool := false
  lines : List String := []
  deriving DecidableEq, Repr

namespace Sink

def breaks (k : Sink) (line : String) : Bool := k.breaksOn = some line

/-- Whether the sink breaks while some lines are written to it. -/
def breaksWithin (k : Sink) (lines : List String) : Bool := lines.any k.breaks

/-- Writes lines in order, up to the first one that the sink breaks on. -/
def write (k : Sink) (lines : List String) : Sink :=
  if k.discards then k
  else { k with lines := k.lines ++ lines.takeWhile fun line => !k.breaks line }

end Sink

end DevMachine.Logs
