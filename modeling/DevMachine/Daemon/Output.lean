import DevMachine.Container.Failure
import DevMachine.Text.Utf8

/-!
# Output of attached commands

Output of a command arrives in frames.  A frame has a header of eight octets,
the number of a stream in the first and the size of its content in the last
four, highest first.  A terminal sends no frames: where a header should begin
with a number above two, all that follows is output.  All streams count alike.
-/

namespace DevMachine.Daemon

open Container (Failure)
open Text (Octets)

/-- The number of some octets, the highest first. -/
def bigEndian (octets : Octets) : Nat := octets.foldl (fun n b => n * 256 + b.toNat) 0

/-- The chunks of output in order.  An incomplete frame is a failure, unless
it ends right behind its header. -/
def outputChunks : Octets → List (Except Failure Octets)
  | [] => []
  | first :: s =>
    if 2 < first then [.ok (first :: s)]
    else if s.length < 7 then [.error (.connection .unusable)]
    else
      let size := bigEndian ((s.drop 3).take 4)
      let content := s.drop 7
      if size ≤ content.length then .ok (content.take size) :: outputChunks (content.drop size)
      else if content = [] then []
      else [.error (.connection .unusable)]
termination_by s => s.length
decreasing_by
  simp only [List.length_cons, List.length_drop]
  omega

end DevMachine.Daemon
