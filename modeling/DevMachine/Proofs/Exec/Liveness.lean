import DevMachine.Proofs.Exec.Forwarding
import DevMachine.Proofs.Text.Decoding

/-!
# What a probe tells

A process lives if its probe gets through and says nothing but blanks.  The
runner decides this line by line; it comes to the same as looking at the text of the
whole output, for line breaks are blank themselves.
-/

namespace DevMachine.Exec

open Container (Failure)
open Text (Octets isBlank isBlankChar)
open Text.Utf8 (decodeLossy)

/-- The verdict on the process behind a probe that got this answer. -/
def verdictOf (reply : Except Failure Output) : Except Failure Bool :=
  (forwarded reply).result.map fun _ => (forwarded reply).lines.all isBlank

theorem verdictOf_whole (octets : List Octets) :
    verdictOf (.ok (.attached (octets.map .ok))) =
      .ok (isBlank (decodeLossy octets.flatten)) := by
  rw [verdictOf, forwarded_whole, ← Text.all_isBlank_wholeLines]
  rfl

theorem verdictOf_broken (octets : List Octets) (e : Failure)
    (rest : List (Except Failure Octets)) :
    verdictOf (.ok (.attached (octets.map .ok ++ .error e :: rest))) = .error e := by
  rw [verdictOf, forwarded_broken]
  rfl

theorem whole_or_broken (chunks : List (Except Failure Octets)) :
    (∃ octets : List Octets, chunks = octets.map .ok) ∨
      ∃ (octets : List Octets) (e : Failure) (rest : List (Except Failure Octets)),
        chunks = octets.map .ok ++ .error e :: rest := by
  induction chunks with
  | nil => exact .inl ⟨[], rfl⟩
  | cons chunk chunks ih =>
      cases chunk with
      | error e => exact .inr ⟨[], e, chunks, rfl⟩
      | ok first =>
          rcases ih with ⟨octets, rfl⟩ | ⟨octets, e, rest, rfl⟩
          · exact .inl ⟨first :: octets, rfl⟩
          · exact .inr ⟨first :: octets, e, rest, rfl⟩

/-- The text of some octets without its line breaks.  It is the text that counts: a
break inside a character leaves malformed pieces of it on both sides. -/
def unbroken (octets : Octets) : List Char :=
  (decodeLossy octets).toList.filter fun c => c ≠ '\n' ∧ c ≠ '\r'

theorem isBlank_decodeLossy (octets : Octets) :
    isBlank (decodeLossy octets) = (unbroken octets).all isBlankChar := by
  rw [Bool.eq_iff_iff, isBlank, unbroken, List.all_filter, List.all_eq_true, List.all_eq_true]
  refine forall₂_congr fun c _ => ?_
  by_cases hbreak : c = '\n' ∨ c = '\r'
  · rcases hbreak with rfl | rfl <;> decide
  · rw [not_or] at hbreak
    simp [hbreak]

theorem reply_cases (reply : Except Failure Output) :
    (∃ e, reply = .error e) ∨ reply = .ok .detached ∨
      (∃ octets : List Octets, reply = .ok (.attached (octets.map .ok))) ∨
      ∃ (octets : List Octets) (e : Failure) (rest : List (Except Failure Octets)),
        reply = .ok (.attached (octets.map .ok ++ .error e :: rest)) := by
  rcases reply with e | _ | chunks
  · exact .inl ⟨e, rfl⟩
  · exact .inr (.inl rfl)
  · rcases whole_or_broken chunks with ⟨octets, rfl⟩ | ⟨octets, e, rest, rfl⟩
    · exact .inr (.inr (.inl ⟨octets, rfl⟩))
    · exact .inr (.inr (.inr ⟨octets, e, rest, rfl⟩))

variable {reply : Except Failure Output}

theorem verdictOf_eq_true_iff :
    verdictOf reply = .ok true ↔
      reply = .ok .detached ∨
        ∃ octets : List Octets, reply = .ok (.attached (octets.map .ok)) ∧
          isBlank (decodeLossy octets.flatten) = true := by
  constructor
  · intro h
    rcases reply_cases reply with ⟨e, rfl⟩ | rfl | ⟨octets, rfl⟩ | ⟨octets, e, rest, rfl⟩
    · cases h
    · exact .inl rfl
    · rw [verdictOf_whole, Except.ok.injEq] at h
      exact .inr ⟨octets, rfl, h⟩
    · rw [verdictOf_broken] at h
      cases h
  · rintro (rfl | ⟨octets, rfl, hblank⟩)
    · rfl
    · rw [verdictOf_whole, hblank]

theorem verdictOf_eq_false_iff :
    verdictOf reply = .ok false ↔
      ∃ octets : List Octets, reply = .ok (.attached (octets.map .ok)) ∧
        ∃ c ∈ (decodeLossy octets.flatten).toList, isBlankChar c = false := by
  have hspeaks (s : String) : isBlank s = false ↔ ∃ c ∈ s.toList, isBlankChar c = false := by
    simp [isBlank]
  constructor
  · intro h
    rcases reply_cases reply with ⟨e, rfl⟩ | rfl | ⟨octets, rfl⟩ | ⟨octets, e, rest, rfl⟩
    · cases h
    · cases h
    · rw [verdictOf_whole, Except.ok.injEq, hspeaks] at h
      exact ⟨octets, rfl, h⟩
    · rw [verdictOf_broken] at h
      cases h
  · rintro ⟨octets, rfl, hc⟩
    rw [verdictOf_whole, (hspeaks _).mpr hc]

theorem verdictOf_eq_error_iff {e : Failure} :
    verdictOf reply = .error e ↔
      reply = .error e ∨
        ∃ (octets : List Octets) (rest : List (Except Failure Octets)),
          reply = .ok (.attached (octets.map .ok ++ .error e :: rest)) := by
  constructor
  · intro h
    rcases reply_cases reply with ⟨e', rfl⟩ | rfl | ⟨octets, rfl⟩ | ⟨octets, e', rest, rfl⟩
    · exact .inl (congrArg Except.error (Except.error.inj h))
    · cases h
    · rw [verdictOf_whole] at h
      cases h
    · rw [verdictOf_broken, Except.error.injEq] at h
      subst h
      exact .inr ⟨octets, rest, rfl⟩
  · rintro (rfl | ⟨octets, rest, rfl⟩)
    · rfl
    · exact verdictOf_broken octets e rest

theorem isAlive_eq_verdictOf {σ : Type} (r : Runner σ) (b : Backend σ)
    (container command path : String) :
    (r.isAlive b { container, command, pidFile := some path }).1 =
      verdictOf (b.reply r.world container (livenessProbe path) true) := by
  rw [verdictOf, ← r.run_attached b]
  rfl

/-- A probe of a handle that has a pid file says that its process lives iff the
runtime detached it or its whole output is blank, and that it does not live iff
the output ends by itself with something else in it.  Otherwise it tells what
failed first.  Two outputs that differ in their chunks and line breaks only get
the same verdict. -/
theorem isAlive_iff_output_blank {σ : Type} (r : Runner σ) (b : Backend σ)
    (container command path : String) :
    let handle : Handle := { container, command, pidFile := some path }
    let reply := b.reply r.world container (livenessProbe path) true
    ((r.isAlive b handle).1 = .ok true ↔
        reply = .ok .detached ∨
          ∃ octets : List Octets, reply = .ok (.attached (octets.map .ok)) ∧
            isBlank (decodeLossy octets.flatten) = true) ∧
      ((r.isAlive b handle).1 = .ok false ↔
        ∃ octets : List Octets, reply = .ok (.attached (octets.map .ok)) ∧
          ∃ c ∈ (decodeLossy octets.flatten).toList, isBlankChar c = false) ∧
      (∀ e, (r.isAlive b handle).1 = .error e ↔
        reply = .error e ∨
          ∃ (octets : List Octets) (rest : List (Except Failure Octets)),
            reply = .ok (.attached (octets.map .ok ++ .error e :: rest))) ∧
      ∀ (b' : Backend σ) (octets octets' : List Octets),
        reply = .ok (.attached (octets.map .ok)) →
          b'.reply r.world container (livenessProbe path) true =
            .ok (.attached (octets'.map .ok)) →
            unbroken octets.flatten = unbroken octets'.flatten →
              (r.isAlive b handle).1 = (r.isAlive b' handle).1 := by
  intro handle reply
  have hverdict (b : Backend σ) :
      (r.isAlive b handle).1 = verdictOf (b.reply r.world container (livenessProbe path) true) :=
    isAlive_eq_verdictOf r b container command path
  simp only [hverdict]
  refine ⟨verdictOf_eq_true_iff, verdictOf_eq_false_iff, fun e => verdictOf_eq_error_iff, ?_⟩
  intro b' octets octets' hreply hreply' hsame
  calc verdictOf reply
      = .ok (isBlank (decodeLossy octets.flatten)) := by rw [hreply, verdictOf_whole]
    _ = .ok (isBlank (decodeLossy octets'.flatten)) := by
      rw [isBlank_decodeLossy, isBlank_decodeLossy, hsame]
    _ = _ := by rw [hreply', verdictOf_whole]

/-- A blank character of three octets comes in two chunks, with half a line break. -/
example :
    let r : Runner Rehearsal :=
      { world := { starts := [.ok (.attached [.ok [0x20, 0xe3], .ok [0x80, 0x80, 0x0d]])] } }
    (r.isAlive Rehearsal.backend (.ofPidFile "box" "/tmp/machine-exec-00000000.pid")).1 =
      .ok true := by
  rfl

end DevMachine.Exec
