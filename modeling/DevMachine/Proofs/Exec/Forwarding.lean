import DevMachine.Proofs.Exec.Traceability
import DevMachine.Proofs.Text.Lines

/-!
# What an attached launch forwards

Output comes in chunks that may be cut anywhere, and it may break off.  A launch
that is attached to it forwards the lines of all octets when the output ends by
itself.  When it breaks off the lines that have ended until then are forwarded,
and the unfinished one is lost together with everything behind the failure.
-/

namespace DevMachine.Exec

open Container (Failure)
open Text (Octets LineBuffer wholeLines endedLines)

theorem forward_append (buffer : LineBuffer) (octets : List Octets)
    (rest : List (Except Failure Octets)) :
    forward buffer (octets.map .ok ++ rest) =
      ((buffer.pushAll octets).1 ++ (forward (buffer.pushAll octets).2 rest).1,
        (forward (buffer.pushAll octets).2 rest).2) := by
  induction octets generalizing buffer with
  | nil => rfl
  | cons chunk octets ih =>
      simp only [List.map_cons, List.cons_append, forward, ih, LineBuffer.pushAll,
        List.append_assoc]

theorem forward_whole (octets : List Octets) :
    forward {} (octets.map .ok) = (wholeLines octets.flatten, none) := by
  have hlines := congrArg Prod.fst (LineBuffer.takeIn_eq List.not_mem_nil octets)
  have hforward := forward_append {} octets []
  rw [List.append_nil] at hforward
  rw [hforward]
  exact congrArg (·, none) hlines

theorem forward_broken (octets : List Octets) (e : Failure)
    (rest : List (Except Failure Octets)) :
    forward {} (octets.map .ok ++ .error e :: rest) = (endedLines octets.flatten, some e) := by
  have hlines := LineBuffer.pushAll_eq List.not_mem_nil octets
  rw [forward_append, hlines, List.nil_append]
  exact congrArg (·, some e) (List.append_nil _)

/-- What a runtime answers when a script is run: the output of its session, or why
there is none. -/
def Backend.reply {σ : Type} (b : Backend σ) (world : σ) (container script : String)
    (attach : Bool) : Except Failure Output :=
  match b.create world container attach ["/bin/sh", "-c", script] with
  | (.error e, _) => .error e
  | (.ok exec, world) => (b.start world exec (!attach)).1

/-- What an attached run makes of the answer. -/
def forwarded : Except Failure Output → Outcome Unit
  | .error e => { result := .error e }
  | .ok .detached => { result := .ok () }
  | .ok (.attached chunks) =>
    { result := (forward {} chunks).2.elim (.ok ()) .error
      lines := (forward {} chunks).1 }

theorem forwarded_whole (octets : List Octets) :
    forwarded (.ok (.attached (octets.map .ok))) =
      { result := .ok (), lines := wholeLines octets.flatten } := by
  rw [forwarded, forward_whole]
  rfl

theorem forwarded_broken (octets : List Octets) (e : Failure)
    (rest : List (Except Failure Octets)) :
    forwarded (.ok (.attached (octets.map .ok ++ .error e :: rest))) =
      { result := .error e, lines := endedLines octets.flatten } := by
  rw [forwarded, forward_broken]
  rfl

namespace Runner

variable {σ : Type} (r : Runner σ) (b : Backend σ)

theorem run_attached (container script : String) :
    (r.run b container script true).1 = forwarded (b.reply r.world container script true) := by
  unfold run Backend.reply shellArguments
  rcases b.create r.world container true ["/bin/sh", "-c", script] with ⟨e | exec, world⟩
  · rfl
  · simp only [Bool.not_true]
    rcases b.start world exec false with ⟨e | _ | chunks, world'⟩
    · rfl
    · rfl
    · simp only [forwarded, if_true]
      cases (forward {} chunks).2 <;> rfl

/-- A launch with a sink hands out a handle of its pid file unless its run fails. -/
theorem start_attached (container command : String) :
    (r.start b container command true).1 =
      let outcome := forwarded (b.reply r.world container (wrapCommand r.nextPath command) true)
      { result := outcome.result.map fun _ =>
          { container, command, pidFile := some r.nextPath }
        lines := outcome.lines } := by
  have hrun := run_attached { r with launched := r.launched + 1 } b container
    (wrapCommand r.nextPath command)
  rw [← hrun]
  rfl

/-- A launch with a sink forwards all lines of its output and hands out a handle
when the output ends by itself.  Up to a failure it forwards the lines that have
ended and then tells the failure, whatever comes behind it.  The octets before the
failure count and not how they are cut. -/
theorem attached_launch_forwards_lines (container command : String)
    (chunks : List (Except Failure Octets))
    (hreply : b.reply r.world container (wrapCommand r.nextPath command) true =
      .ok (.attached chunks)) :
    let outcome := (r.start b container command true).1
    (∀ octets : List Octets, chunks = octets.map .ok →
        outcome.lines = wholeLines octets.flatten ∧
          outcome.result = .ok { container, command, pidFile := some r.nextPath }) ∧
      (∀ (octets : List Octets) (e : Failure) (rest : List (Except Failure Octets)),
        chunks = octets.map .ok ++ .error e :: rest →
          outcome.lines = endedLines octets.flatten ∧ outcome.result = .error e) ∧
      ∀ (b' : Backend σ) (octets octets' : List Octets) (e : Failure)
        (rest rest' : List (Except Failure Octets)),
        chunks = octets.map .ok ++ .error e :: rest →
          b'.reply r.world container (wrapCommand r.nextPath command) true =
            .ok (.attached (octets'.map .ok ++ .error e :: rest')) →
          octets.flatten = octets'.flatten → (r.start b' container command true).1 = outcome := by
  intro outcome
  have houtcome : outcome = _ := start_attached r b container command
  rw [hreply] at houtcome
  refine ⟨?_, ?_, ?_⟩
  · rintro octets rfl
    rw [houtcome, forwarded_whole]
    exact ⟨rfl, rfl⟩
  · rintro octets e rest rfl
    rw [houtcome, forwarded_broken]
    exact ⟨rfl, rfl⟩
  · rintro b' octets octets' e rest rest' rfl hreply' hsame
    rw [houtcome, start_attached r b', hreply', forwarded_broken, forwarded_broken, hsame]

/-- A line break and a character are cut apart, and the output breaks off within a
line. -/
theorem attached_launch_forwards_lines_until_failure :
    let lost : Failure := .operationFailed "lost"
    let octets : List Octets := [[0x61, 0x0d], [0x0a, 0xc3], [0xa9, 0x0a, 0x78]]
    let chunks : List (Except Failure Octets) := octets.map .ok ++ [.error lost, .ok [0x0a]]
    let r : Runner Rehearsal := { world := { starts := [.ok (.attached chunks)] } }
    let outcome := (r.start Rehearsal.backend "box" "make" true).1
    Rehearsal.backend.reply r.world "box" (wrapCommand r.nextPath "make") true =
        .ok (.attached chunks) ∧
      outcome.lines = ["a", "é"] ∧ outcome.result = .error lost := by
  intro lost octets chunks r outcome
  have hreply : Rehearsal.backend.reply r.world "box" (wrapCommand r.nextPath "make") true =
      .ok (.attached chunks) := rfl
  obtain ⟨-, hbroken, -⟩ :=
    attached_launch_forwards_lines r Rehearsal.backend "box" "make" chunks hreply
  obtain ⟨hlines, hresult⟩ := hbroken octets lost [.ok [0x0a]] rfl
  have hended : endedLines octets.flatten = ["a", "é"] := by decide +kernel
  exact ⟨hreply, hlines.trans hended, hresult⟩

end Runner

end DevMachine.Exec
