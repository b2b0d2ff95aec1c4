/-
Bolide.Rfb.Written — what the writer has put on the wire.

`written` reads off a run the messages that have been written whole and what
has been written of the next. The writer's role knows the message it is at
and what is left of it, so the two agree at every moment: `agrees_next` says
that every operation of the writer keeps it so, and no other task writes.
-/
import Bolide.Rfb.DeathTheorems

namespace Bolide.Rfb

open Lib Prog

/-! ## The wire -/

/-- The messages written whole, the oldest first, and what is written of the
next. -/
structure Written where
  sent : List (List UInt8)
  part : List UInt8
  deriving DecidableEq, Repr

namespace Written

def empty : Written where
  sent := []
  part := []

/-- The connection takes `n` of the bytes it is offered, which are the rest of
a message. -/
def take (w : Written) (rest : List UInt8) (n : Nat) : Written :=
  if n < rest.length then { w with part := w.part ++ rest.take n }
  else { sent := w.sent ++ [w.part ++ rest], part := [] }

/-- What an operation puts on the wire. -/
def note (w : Written) : (o : Op) → o.Resp → Written
  | .pollWrite rest, .ok n => w.take rest n
  | _, _ => w

/-- Every byte on the wire. -/
def bytes (w : Written) : List UInt8 := w.sent.flatten ++ w.part

/-- How many messages have begun. -/
def begun (w : Written) : Nat := w.sent.length + if w.part = [] then 0 else 1

theorem begun_note (w : Written) (o : Op) (r : o.Resp) : w.begun ≤ (w.note o r).begun := by
  unfold note
  split
  · next rest n =>
      unfold take
      by_cases hlt : n < rest.length
      · by_cases hpart : w.part = []
        · simp [begun, hlt, hpart]
        · simp [begun, hlt, hpart]
      · by_cases hpart : w.part = []
        · simp [begun, hlt, hpart]
        · simp [begun, hlt, hpart]
  · exact Nat.le_refl _

theorem sent_le_note (w : Written) (o : Op) (r : o.Resp) : w.sent <+: (w.note o r).sent := by
  unfold note
  split
  · next rest n =>
      unfold take
      split
      · exact List.prefix_refl _
      · exact List.prefix_append _ _
  · exact List.prefix_refl _

end Written

/-- What is on the wire after a run. -/
def written (t : List (Tasks.Entry SessionSig)) : Written :=
  t.foldl (fun w e => w.note e.op e.answer) .empty

theorem written_snoc (t : List (Tasks.Entry SessionSig)) (i : Nat) (o : Op) (r : o.Resp) :
    written (t ++ [⟨i, o, r⟩]) = (written t).note o r := by
  rw [written, List.foldl_append]
  rfl

/-- Messages that have begun stay so. -/
theorem begun_le_append (before after : List (Tasks.Entry SessionSig)) :
    (written before).begun ≤ (written (before ++ after)).begun := by
  induction after using List.reverseRecOn with
  | nil => simp
  | append_singleton rest e ih =>
      rw [← List.append_assoc]
      obtain ⟨i, o, r⟩ := e
      rw [written_snoc]
      exact ih.trans (Written.begun_note _ o r)

/-- The operations that write. -/
def Op.Writes : Op → Prop
  | .pollWrite _ => True
  | _ => False

theorem Op.Writes.ofWriter {o : Op} (h : o.Writes) : o.OfWriter := by
  cases o with
  | pollWrite bytes => trivial
  | _ => exact h.elim

theorem note_of_not_writes {o : Op} (h : ¬ o.Writes) (w : Written) (r : o.Resp) : w.note o r = w := by
  cases o with
  | pollWrite bytes => exact absurd trivial h
  | _ => rfl

/-! ## What is accepted -/

/-- The commands that were accepted, in the order of the queue. -/
def accepted (t : List (Tasks.Entry SessionSig)) : List (Nat × Command) :=
  t.flatMap (fun e => (e.op.queues e.answer).map (fun command => (e.task, command)))

theorem accepted_snoc (t : List (Tasks.Entry SessionSig)) (i : Nat) (o : Op) (r : o.Resp) :
    accepted (t ++ [⟨i, o, r⟩]) = accepted t ++ (o.queues r).map (fun command => (i, command)) := by
  rw [accepted, List.flatMap_append, List.flatMap_singleton]
  rfl

/-! ## The writer -/

/-- What the role of the writer says of the wire. -/
def Writing.Agrees (w : Written) : Writing → Prop
  | ready => w.part = []
  | asked _ => w.part = []
  | sized _ _ => w.part = []
  | writing _ message rest => w.part ++ rest = message ∧ rest ≠ []
  | _ => True

/-- A message that is at hand is being written. -/
theorem Writing.left_of_ne {command : Command} {message rest : List UInt8} (h : rest ≠ []) :
    left command message rest = .writing command message rest := if_neg h

theorem framebufferUpdateRequest_ne_nil (incremental : Bool) (x y w h : UInt16) :
    framebufferUpdateRequest incremental x y w h ≠ [] := List.cons_ne_nil _ _

theorem Writing.agrees_left {w : Written} {command : Command} {message rest : List UInt8}
    (h : w.part ++ rest = message) (hdone : rest = [] → w.part = []) :
    (left command message rest).Agrees w := by
  unfold left
  split
  · next hrest => exact hdone hrest
  · next hrest => exact ⟨h, hrest⟩

/-- Every operation of the writer agrees with what it puts on the wire. -/
theorem Writing.agrees_next {role : Writing} {w : Written} {o : Op} {r : o.Resp}
    (h : role.Agrees w) (hmay : role.may o) (hans : Answered o r) :
    (role.next o r).Agrees (w.note o r) := by
  cases role with
  | ready =>
      cases (hmay : o = .pop)
      match r with
      | none => trivial
      | some (.write bytes) =>
          refine agrees_left ?_ (fun _ => h)
          show w.part ++ bytes = bytes
          rw [show w.part = [] from h]
          rfl
      | some (.request incremental) => exact h
  | asked incremental =>
      cases (hmay : o = .swapNeedsFull)
      exact h
  | sized incremental first =>
      cases (hmay : o = .size)
      refine agrees_left ?_ (fun _ => h)
      show w.part ++ _ = _
      rw [show w.part = [] from h]
      rfl
  | writing command message rest =>
      cases (hmay : o = .pollWrite rest)
      obtain ⟨hmessage, hrest⟩ := h
      match r, hans with
      | .error e, _ => trivial
      | .ok 0, _ => trivial
      | .ok (n + 1), hans =>
          have hle : n + 1 ≤ rest.length := hans
          show (left command message (rest.drop (n + 1))).Agrees (w.take rest (n + 1))
          unfold Written.take
          split
          · next hlt =>
              refine agrees_left ?_ (fun hdrop => ?_)
              · rw [List.append_assoc, List.take_append_drop, hmessage]
              · rw [List.drop_eq_nil_iff] at hdrop
                omega
          · next hge =>
              have hdrop : rest.drop (n + 1) = [] := by
                rw [List.drop_eq_nil_iff]
                omega
              simp only [left, hdrop, if_true]
              rfl
  | failed =>
      cases (hmay : o = .swapConnected)
      cases r <;> trivial
  | dying d =>
      show (buried (d.next o r)).Agrees _
      cases d.next o r <;> trivial
  | closing =>
      cases (hmay : o = .closeCommands)
      trivial
  | gone => exact hmay.elim

/-- A message that is complete is the whole message of the writer's command. -/
theorem Writing.sent_next {command : Command} {message rest : List UInt8} {w : Written} {n : Nat}
    (h : (writing command message rest).Agrees w) :
    (w.take rest n).sent = w.sent ∧ n < rest.length ∨
      (w.take rest n).sent = w.sent ++ [message] ∧ rest.length ≤ n := by
  unfold Written.take
  split
  · next hlt => exact .inl ⟨rfl, hlt⟩
  · next hge =>
      refine .inr ⟨?_, Nat.not_lt.mp hge⟩
      show w.sent ++ [w.part ++ rest] = _
      rw [h.1]

/-- The writer writes what its role says, and nobody else writes. -/
structure Copying (γ : Nat → Role) (t : List (Tasks.Entry SessionSig)) : Prop where
  posted : Posted γ
  agrees : ∀ w, γ 1 = .writer w → w.Agrees (written t)

/-- Another task leaves the wire as it is. -/
theorem Copying.note_of_ne {γ : Nat → Role} {t : List (Tasks.Entry SessionSig)} {i : Nat} {o : Op}
    (h : Copying γ t) (hmay : (γ i).may o) (hi : i ≠ 1) (r : o.Resp) :
    (written t).note o r = written t :=
  note_of_not_writes (fun hwrites => h.posted.not_writer hmay hi hwrites.ofWriter) _ r

theorem copying_step {continuous : Bool} {γ : Nat → Role} {t : List (Tasks.Entry SessionSig)}
    {i : Nat} {o : Op} {r : o.Resp} (h : Copying γ t) (hmay : (γ i).may o) (hans : Answered o r) :
    Copying (Tasks.moved (protocol continuous) γ i o r) (t ++ [⟨i, o, r⟩]) := by
  refine ⟨posted_moved h.posted i o r, fun w' hw' => ?_⟩
  rw [written_snoc]
  obtain ⟨w, hw⟩ := h.posted.writer
  by_cases h1 : 1 = i
  · subst h1
    rw [hw] at hmay
    rw [Tasks.moved_self, hw] at hw'
    cases hw'
    exact Writing.agrees_next (h.agrees w hw) hmay hans
  · rw [Tasks.moved_of_ne _ _ h1] at hw'
    rw [h.note_of_ne hmay (Ne.symm h1)]
    exact h.agrees w' hw'

theorem copying_start (continuous : Bool) (calls : List Call) :
    Copying (sessionRoles continuous calls) [] := by
  refine ⟨posted_start continuous calls, fun w hw => ?_⟩
  cases hw
  rfl

end Bolide.Rfb
