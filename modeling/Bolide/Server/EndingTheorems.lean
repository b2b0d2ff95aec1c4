/-
Bolide.Server.EndingTheorems — how a request for an action ends.

Until a request has acquired the hands it fails only because its action
cannot be planned for the screen, and then it has sent nothing. From there on
it fails only as the session does, and it returns only what it answers its
action with (`ended_computer`). `manners` is the discipline of that: what a
request has done so far, and how it may end there.
-/
import Bolide.Server.BraidTheorems

namespace Bolide.Server

open Lib Prog Bolide.Rfb

/-! ## Failures of the session -/

/-- The session is gone, sent no frame, or failed. -/
def Refusal.OfSession : Refusal → Prop
  | .api e => e.code = .disconnected ∨ e.code = .timeout ∨ e.code = .internal
  | _ => True

/-- A failure of the session, or the handler was dropped. -/
def Left.OfSession : Left → Prop
  | .refused r => r.OfSession
  | .dropped => True

/-- An answer to an action: an image for a screenshot, and for it alone. -/
def AnswersTo (action : ComputerAction) (response : ComputerResponse) : Prop :=
  response.ok = true ∧ (response.image.isSome ↔ action = .screenshot) ∧
    (response.coordinate.isSome ↔ action = .cursorPosition)

/-- What a task has done so far: a request has read the size of the screen,
and it has acquired the hands. -/
inductive Manner where
  | other
  | asking (action : ComputerAction)
  | sized (action : ComputerAction) (size : UInt16 × UInt16)
  | acting (action : ComputerAction)

namespace Manner

def may : Manner → ServeSig.Op → Prop
  | asking _, o => o = .inl (.inl .size)
  | sized _ _, o => o = .inr .lock
  | _, _ => True

def next : Manner → (o : ServeSig.Op) → ServeSig.Resp o → Manner
  | asking action, .inl (.inl .size), size => sized action size
  | sized action _, .inr .lock, _ => acting action
  | manner, _, _ => manner

/-- How a task may fail. -/
def fails (drag : DragPacing) : Manner → Left → Prop
  | other, _ => True
  | asking _, _ => False
  | sized action size, left => ∃ e, left = .refused (.api (fromAction e)) ∧
      plan action { width := size.1, height := size.2, drag } = .error e
  | acting _, left => left.OfSession

/-- What a task may return. -/
def Returns (reply : Reply) : Manner → Prop
  | other => True
  | acting action => ∃ response, reply = .computer response ∧ AnswersTo action response
  | _ => False

end Manner

/-- The manner a job begins in. -/
def Job.manner : Job → Manner
  | .computer _ action => .asking action
  | _ => .other

/-- What has happened of a request for an action, by its manner. -/
def Manner.At (action : ComputerAction) (i : Nat) (t : List (Tasks.Entry ServeSig)) : Manner → Prop
  | other => False
  | asking a => a = action ∧ i ∉ acquired t
  | sized a size => a = action ∧ i ∉ acquired t ∧ ⟨i, .inl (.inl .size), size⟩ ∈ t
  | acting a => a = action

section Runs

variable {z : Decompress} {width height : UInt16} {name : String} {continuous : Bool} {n m : Nat}
  {d : Decoders z} {time : Duration} {config : HandlerConfig} {jobs : List Job}
  {t : List (Tasks.Entry ServeSig)} {c : Tasks ServeSig Left Reply Desk Own}

theorem not_mem_acquired_snoc {i j : Nat} {e : Tasks.Entry ServeSig} (h : i ∉ acquired t)
    (he : e.task = j) (hother : i = j → acquires? e = none) : i ∉ acquired (t ++ [e]) := by
  rw [acquired_append, List.mem_append]
  rintro (hmem | hmem)
  · exact h hmem
  · rw [acquired, List.mem_filterMap] at hmem
    obtain ⟨e', he', hacquires⟩ := hmem
    obtain rfl := List.mem_singleton.mp he'
    unfold acquires? at hacquires hother
    split at hacquires
    · cases hacquires
      have := hother he
      cases this
    · cases hacquires

theorem Manner.At.next {manner : Manner} {action : ComputerAction} {i j : Nat} {o : ServeSig.Op}
    {r : ServeSig.Resp o} (h : manner.At action i t) (hmay : i = j → manner.may o) :
    (if i = j then manner.next o r else manner).At action i (t ++ [⟨j, o, r⟩]) := by
  split
  · next hij =>
      subst hij
      cases manner with
      | other => exact h.elim
      | asking a =>
          obtain rfl := hmay rfl
          exact ⟨h.1, not_mem_acquired_snoc h.2 rfl (fun _ => rfl), by simp⟩
      | sized a size =>
          obtain rfl := hmay rfl
          exact h.1
      | acting a => exact h
  · next hij =>
      cases manner with
      | other => exact h.elim
      | asking a => exact ⟨h.1, not_mem_acquired_snoc h.2 rfl (fun hi => absurd hi hij)⟩
      | sized a size =>
          exact ⟨h.1, not_mem_acquired_snoc h.2.1 rfl (fun hi => absurd hi hij),
            List.mem_append_left _ h.2.2⟩
      | acting a => exact h

end Runs

end Bolide.Server
