/-
Bolide.Server.BraidTheorems — actions never braid, and the cursor record is
true.

Whatever the scheduler does, the PointerEvents and KeyEvents the session
receives are those of one request after another, in the order in which the
requests acquired the hands, and each request's are its plan's, up to the
call of the session that failed if one did. `cursor_position` is answered
with the position of the last PointerEvent before the request's turn.

The invariant adds to `Turns` what a handler's own steps say: where the
record of the cursor stands beside what has been received, and which calls
of the session have failed.
-/
import Bolide.Rfb.InflateTheorems
import Bolide.Server.Turns

namespace Bolide.Server

open Lib Prog Bolide.Rfb

/-! ## What the law says -/

/-- A call of the session that fails. -/
def Refuses : Tasks.Entry ServeSig → Prop
  | ⟨_, .inl (.inl .loadConnected), false⟩ => True
  | ⟨_, .inl (.inl (.push _)), false⟩ => True
  | _ => False

/-- A call of the session by task `i` has failed. -/
def Refused (i : Nat) (t : List (Tasks.Entry ServeSig)) : Prop :=
  ∃ e ∈ t, e.task = i ∧ Refuses e

/-- Task `i` acquires the hands. -/
abbrev acquires (i : Nat) : Tasks.Entry ServeSig := ⟨i, .inr .lock, ()⟩

/-- Task `i` lets go of them. -/
abbrev letsGo (i : Nat) : Tasks.Entry ServeSig := ⟨i, .inr .unlock, ()⟩

/-- What task `i` has sent of a plan: some of it while its turn lasts, all of
it once it is over, or what comes before the operation whose call failed. -/
inductive Performs (i : Nat) (ops : List RfbOp) (t : List (Tasks.Entry ServeSig)) : Prop
  | underway : letsGo i ∉ t → sentBy i t <+: inputs ops → Performs i ops t
  | whole {before after} : t = before ++ letsGo i :: after → ¬ Refused i before →
      sentBy i t = inputs ops → Performs i ops t
  | cut {before after done op rest} : t = before ++ letsGo i :: after → Refused i before →
      ops = done ++ op :: rest → op.isInput = true → sentBy i t = inputs done → Performs i ops t

/-- The job of task `i`: the session's own tasks come first. -/
def jobOf (jobs : List Job) : Nat → Option Job
  | j + 3 => jobs[j]?
  | _ => none

/-- The condition on a step: no handler is dropped with the hands held. -/
structure Undropped (_t : List (Tasks.Entry ServeSig)) (c : Tasks ServeSig Left Reply Desk Own)
    (i : Nat) (m : Choice) : Prop where
  stays : ∀ k own, c.tasks[i]? = some (.step (.inr .suspend) k, own) → m.elapsed = false

/-! ## What a part says -/

namespace Part

/-- The plan of a task that has one, and its action. -/
def plan? : Part → Option (ComputerAction × List RfbOp)
  | queued action ops => some (action, ops)
  | acting action done op rest _ => some (action, done ++ op :: rest)
  | ending action done rest _ => some (action, done ++ rest)
  | released action done rest _ => some (action, done ++ rest)
  | dropping action done rest => some (action, done ++ rest)
  | dropped action done rest => some (action, done ++ rest)
  | _ => none

/-- What a plan is through with. -/
def through : Part → List RfbOp
  | acting _ done _ _ _ => done
  | ending _ done _ _ => done
  | released _ done _ _ => done
  | dropping _ done _ => done
  | dropped _ done _ => done
  | _ => []

/-- What has been read of the cursor. -/
def cursor? : Part → Option Coordinate
  | ending _ _ _ (.release cursor) => some cursor
  | released _ _ _ cursor => some cursor
  | _ => none

/-- A request whose turn is not over. -/
def Computing : Part → Prop
  | fresh _ => True
  | queued _ _ => True
  | acting _ _ _ _ _ => True
  | ending _ _ _ _ => True
  | _ => False

/-- A call of the session has failed. -/
def Failing : Part → Prop
  | acting _ _ _ _ (.after true) => True
  | ending _ _ rest _ => rest ≠ []
  | _ => False

/-- A plan that is cut is cut at a call of the session. -/
def Cut : Part → Prop
  | ending _ _ rest _ => ∀ op ∈ rest.head?, op.isInput = true
  | released _ _ rest _ => ∀ op ∈ rest.head?, op.isInput = true
  | _ => True

/-- The handler has not been dropped. -/
def Kept : Part → Prop
  | dropping _ _ _ => False
  | dropped _ _ _ => False
  | _ => True

/-- What a task has sent is of its plan. -/
theorem sent_prefix {part : Part} {action : ComputerAction} {ops : List RfbOp}
    (h : part.plan? = some (action, ops)) : part.sent <+: inputs ops := by
  cases part with
  | queued action ops =>
      cases h
      exact List.nil_prefix
  | acting action done op rest step =>
      cases h
      have hhead : inputs (op :: rest) = inputs [op] ++ inputs rest := inputs_append [op] rest
      have hone : inHand op step <+: inputs (op :: rest) := by
        rw [hhead]
        unfold inHand
        split
        · exact List.prefix_append _ _
        · exact List.prefix_append _ _
        · exact List.nil_prefix
      rw [inputs_append]
      exact (List.prefix_append_right_inj _).mpr hone
  | ending action done rest finish =>
      cases h
      rw [inputs_append]
      exact List.prefix_append _ _
  | released action done rest cursor =>
      cases h
      rw [inputs_append]
      exact List.prefix_append _ _
  | dropping action done rest =>
      cases h
      rw [inputs_append]
      exact List.prefix_append _ _
  | dropped action done rest =>
      cases h
      rw [inputs_append]
      exact List.prefix_append _ _
  | _ => cases h

/-- Whoever has acquired the hands has a plan. -/
theorem Acquired.plan {part : Part} (h : part.Acquired) :
    ∃ action ops, part.plan? = some (action, ops) := by
  cases part with
  | session role => exact h.elim
  | watching => exact h.elim
  | fresh action => exact h.elim
  | rejected e => exact h.elim
  | queued action ops => exact h.elim
  | _ => exact ⟨_, _, rfl⟩

/-- Whoever does not hold the hands has nothing in hand. -/
theorem sent_of_free {part : Part} (h : ¬ part.Holds) : part.sent = inputs part.through := by
  cases part with
  | acting action done op rest stage => exact absurd trivial h
  | _ => rfl

end Part

section Begin

variable (action : ComputerAction) (done rest : List RfbOp)

theorem begin_plan : (Part.begin action done rest).plan? = some (action, done ++ rest) := by
  cases rest <;> rfl

theorem begin_through : (Part.begin action done rest).through = done := by cases rest <;> rfl

theorem ending_cursor (ops : List RfbOp) :
    (Part.ending action done rest (.of ops)).cursor? = none := by
  unfold Finish.of
  split <;> rfl

theorem begin_cursor : (Part.begin action done rest).cursor? = none := by
  cases rest with
  | nil => exact ending_cursor action done [] done
  | cons op rest => rfl

theorem begin_not_failing : ¬ (Part.begin action done rest).Failing := by
  cases rest with
  | nil => exact fun h => h rfl
  | cons op rest => exact fun h => h

theorem begin_cut : (Part.begin action done rest).Cut := by
  cases rest with
  | nil => exact fun op hop => by cases hop
  | cons op rest => trivial

theorem begin_kept : (Part.begin action done rest).Kept := by cases rest <;> trivial

end Begin

/-- A size that was read is what a plan is made for. -/
theorem planned_queued {drag : DragPacing} {action : ComputerAction} {size : UInt16 × UInt16}
    {a : ComputerAction} {ops : List RfbOp}
    (h : (Part.planned drag action size).plan? = some (a, ops)) :
    a = action ∧ plan action { width := size.1, height := size.2, drag } = .ok ops := by
  unfold Part.planned at h
  split at h
  · next ops' hplan =>
      cases h
      exact ⟨rfl, hplan⟩
  · cases h

/-! ## What a step says -/

/-- A handler is dropped. -/
def Drops : Tasks.Entry ServeSig → Prop
  | ⟨_, .inr .suspend, true⟩ => True
  | _ => False

/-- What an operation writes to the record of the cursor. -/
def recorded? : ServeSig.Op → Option Coordinate
  | .inr (.setCursor cursor) => some cursor
  | _ => none

theorem cursor_after {o : ServeSig.Op} {m : Choice} {s s' : Desk} {own own' : Own}
    {r : ServeSig.Resp o} (h : serveDoes o m s own = some (r, s', own')) :
    s'.2.cursor = (recorded? o).getD s.2.cursor := by
  cases o with
  | inl o => rw [(serveDoes_inl h).2]; rfl
  | inr o =>
      obtain ⟨hexec, _, _⟩ := serveDoes_inr h
      cases o with
      | lock =>
          rw [Hands.exec] at hexec
          split at hexec
          · cases hexec
          · obtain ⟨_, heq⟩ := Prod.mk.inj (Option.some.inj hexec)
            rw [← heq]
            rfl
      | _ =>
          obtain ⟨_, heq⟩ := Prod.mk.inj (Option.some.inj hexec)
          rw [← heq]
          rfl

/-- No handler is dropped by an allowed step. -/
theorem Undropped.not_drops {t : List (Tasks.Entry ServeSig)}
    {c : Tasks ServeSig Left Reply Desk Own} {i : Nat} {m : Choice} {o : ServeSig.Op}
    {k : ServeSig.Resp o → HandlerTask Reply} {own own' : Own} {r : ServeSig.Resp o} {s' : Desk}
    (h : Undropped t c i m) (htask : c.tasks[i]? = some (.step o k, own))
    (hdoes : serveDoes o m c.shared own = some (r, s', own')) : ¬ Drops ⟨i, o, r⟩ := by
  intro hdrops
  unfold Drops at hdrops
  split at hdrops
  · next heq =>
      cases heq
      obtain ⟨hexec, _, _⟩ := serveDoes_inr hdoes
      obtain ⟨helapsed, _⟩ := Prod.mk.inj (Option.some.inj hexec)
      rw [h.stays k own htask] at helapsed
      cases helapsed
  · exact hdrops

/-- A key leaves the pointer where it is. -/
theorem lastPosition_through {op : RfbOp} (h : ∀ x y buttons, op ≠ .pointer x y buttons)
    (events : List Input) (done : List RfbOp) :
    lastPosition (events ++ inputs (done ++ [op])) = lastPosition (events ++ inputs done) := by
  cases op with
  | pointer x y buttons => exact absurd rfl (h x y buttons)
  | key keysym down =>
      rw [inputs_append, ← List.append_assoc, lastPosition, List.foldl_append]
      rfl
  | sleep ms => rw [inputs_append, inputs_of_not_input rfl, List.append_nil]

theorem lastPosition_pointer (events : List Input) (done : List RfbOp) (x y : UInt16)
    (buttons : UInt8) :
    lastPosition (events ++ inputs (done ++ [.pointer x y buttons])) = position x y := by
  rw [inputs_append, ← List.append_assoc, lastPosition, List.foldl_append]
  rfl

namespace Part.Goes

variable {drag : DragPacing} {part part' : Part} {i : Nat} {o : ServeSig.Op} {r : ServeSig.Resp o}

/-- A handler that is not dropped is kept. -/
theorem kept (h : part.Goes drag o r part') (hkept : part.Kept) (hstays : ¬ Drops ⟨i, o, r⟩) :
    part'.Kept := by
  cases h with
  | watches _ _ => exact hkept
  | @sized action size =>
      rcases planned_cases drag action size with ⟨ops, hplan⟩ | ⟨e, hplan⟩ <;> rw [hplan] <;>
        trivial
  | begun => exact begin_kept _ _ _
  | through _ => exact begin_kept _ _ _
  | recorded => exact begin_kept _ _ _
  | leaves _ => exact absurd trivial hstays
  | departs => exact absurd trivial hstays
  | dropped => exact hkept.elim
  | _ => trivial

/-- A plan is made once, of the size that is read. -/
theorem plan {action : ComputerAction} {ops : List RfbOp} (h : part.Goes drag o r part')
    (hplan : part'.plan? = some (action, ops)) :
    part.plan? = some (action, ops) ∨ (part = .fresh action ∧ ∃ size,
      (⟨i, o, r⟩ : Tasks.Entry ServeSig) = ⟨i, .inl (.inl .size), size⟩ ∧
        Server.plan action { width := size.1, height := size.2, drag } = .ok ops) := by
  cases h with
  | session _ _ => cases hplan
  | watches _ _ => exact .inl hplan
  | sized size =>
      obtain ⟨rfl, hplan⟩ := planned_queued hplan
      exact .inr ⟨rfl, size, rfl, hplan⟩
  | begun => exact .inl (by rw [begin_plan] at hplan; exact hplan)
  | through _ =>
      rw [begin_plan, List.append_assoc] at hplan
      exact .inl hplan
  | recorded =>
      rw [begin_plan, List.append_assoc] at hplan
      exact .inl hplan
  | departs =>
      rw [Part.plan?, List.append_assoc] at hplan
      exact .inl hplan
  | _ => exact .inl hplan

/-- No task starts a request over. -/
theorem fresh {action : ComputerAction} (h : part.Goes drag o r part')
    (hfresh : part' = .fresh action) : part = .fresh action := by
  cases h with
  | session _ _ => cases hfresh
  | watches _ _ => exact hfresh
  | @sized a size =>
      rcases planned_cases drag a size with ⟨ops, hplan⟩ | ⟨e, hplan⟩ <;> rw [hplan] at hfresh <;>
        cases hfresh
  | @begun a ops => cases ops <;> cases hfresh
  | @through a done op rest => cases rest <;> cases hfresh
  | @recorded a done x y buttons rest => cases rest <;> cases hfresh
  | _ => cases hfresh

/-- Only who holds the hands writes the record of the cursor. -/
theorem unrecorded (h : part.Goes drag o r part') (hfree : ¬ part.Holds) : recorded? o = none := by
  cases h with
  | recorded => exact absurd trivial hfree
  | _ => rfl

/-- The record of the cursor is where the plan has taken it. -/
theorem record (h : part.Goes drag o r part') (hholds : part.Holds) (hkept : part'.Kept)
    (events : List Input) :
    lastPosition (events ++ inputs part'.through) =
      (recorded? o).getD (lastPosition (events ++ inputs part.through)) := by
  cases h with
  | session _ _ => exact hholds.elim
  | watches _ _ => rfl
  | sized size => exact hholds.elim
  | begun => exact hholds.elim
  | through hop =>
      rw [begin_through]
      exact lastPosition_through hop events _
  | recorded =>
      rw [begin_through]
      exact lastPosition_pointer events _ _ _ _
  | leaves _ => exact hkept.elim
  | departs => exact hkept.elim
  | _ => rfl

/-- The cursor is read once, when the plan is through. -/
theorem cursor {cursor : Coordinate} (h : part.Goes drag o r part')
    (hcursor : part'.cursor? = some cursor) : part'.through = part.through ∧
      (part.cursor? = some cursor ∨ (part.Holds ∧ part.sent = inputs part.through ∧
        (⟨i, o, r⟩ : Tasks.Entry ServeSig) = ⟨i, .inr .cursor, cursor⟩)) := by
  cases h with
  | watches _ _ => exact ⟨rfl, .inl hcursor⟩
  | @sized action size =>
      rcases planned_cases drag action size with ⟨ops, hplan⟩ | ⟨e, hplan⟩ <;>
        rw [hplan] at hcursor <;> cases hcursor
  | begun =>
      rw [begin_cursor] at hcursor
      cases hcursor
  | through _ =>
      rw [begin_cursor] at hcursor
      cases hcursor
  | recorded =>
      rw [begin_cursor] at hcursor
      cases hcursor
  | read cursor' =>
      cases hcursor
      exact ⟨rfl, .inr ⟨trivial, rfl, rfl⟩⟩
  | released => exact ⟨rfl, .inl hcursor⟩
  | failed =>
      rw [ending_cursor] at hcursor
      cases hcursor
  | _ => cases hcursor

/-- A plan that is cut stays cut where it was. -/
theorem cut (h : part.Goes drag o r part') (hfits : part.Fits) (hcut : part.Cut) : part'.Cut := by
  cases h with
  | watches _ _ => exact hcut
  | @sized action size =>
      rcases planned_cases drag action size with ⟨ops, hplan⟩ | ⟨e, hplan⟩ <;> rw [hplan] <;>
        trivial
  | begun => exact begin_cut _ _ _
  | through _ => exact begin_cut _ _ _
  | recorded => exact begin_cut _ _ _
  | failed =>
      intro op hop
      cases hop
      exact hfits
  | stamped => exact hcut
  | read _ => exact hcut
  | released => exact hcut
  | _ => trivial

/-- A turn that is over stays over. -/
theorem computing (h : part.Goes drag o r part') (hpart : part'.Computing) : part.Computing := by
  cases h with
  | session _ _ => exact hpart.elim
  | watches _ _ => exact hpart
  | leaves _ => exact hpart.elim
  | departs => exact hpart.elim
  | released => exact hpart.elim
  | dropped => exact hpart.elim
  | _ => trivial

/-- A call of the session fails, or has failed. -/
theorem failing (h : part.Goes drag o r part') (hpart : part'.Computing) :
    part'.Failing ↔ (part.Failing ∨ Refuses ⟨i, o, r⟩) := by
  have hnever : ∀ {p q : Prop}, ¬ p → ¬ q → (q ↔ (p ∨ False)) := fun hp hq =>
    iff_of_false hq (fun h => h.elim hp (fun h => h))
  cases h with
  | session _ _ => exact hpart.elim
  | watches hwatching _ => cases part <;> first | exact hwatching.elim | exact hpart.elim
  | @sized action size =>
      rcases planned_cases drag action size with ⟨ops, hplan⟩ | ⟨e, hplan⟩ <;> rw [hplan] <;>
        exact hnever (fun h => h) (fun h => h)
  | begun => exact hnever (fun h => h) (begin_not_failing _ _ _)
  | @resumed action done op rest => cases op <;> exact hnever (fun h => h) (fun h => h)
  | asked connected =>
      cases connected with
      | false => exact iff_of_true trivial (.inr trivial)
      | true => exact hnever (fun h => h) (fun h => h)
  | pushed accepted _ =>
      cases accepted with
      | false => exact iff_of_true trivial (.inr trivial)
      | true => exact hnever (fun h => h) (fun h => h)
  | through _ => exact hnever (fun h => h) (begin_not_failing _ _ _)
  | recorded => exact hnever (fun h => h) (begin_not_failing _ _ _)
  | failed => exact iff_of_true (List.cons_ne_nil _ _) (.inl trivial)
  | @stamped action done rest _ => exact (or_iff_left (fun h => h)).symm
  | @read action done rest _ => exact (or_iff_left (fun h => h)).symm
  | leaves _ => exact hpart.elim
  | departs => exact hpart.elim
  | released => exact hpart.elim
  | dropped => exact hpart.elim
  | _ => exact hnever (fun h => h) (fun h => h)

/-- A turn is over once the hands are let go of. -/
theorem finished {action : ComputerAction} {done rest : List RfbOp} {cursor : Coordinate}
    (h : part.Goes drag o r part') (hfinished : part' = .released action done rest cursor) :
    part = .released action done rest cursor ∨
      (part = .ending action done rest (.release cursor) ∧ o = .inr .unlock) := by
  cases h with
  | session _ _ => cases hfinished
  | watches _ _ => exact .inl hfinished
  | @sized a size =>
      rcases planned_cases drag a size with ⟨ops, hplan⟩ | ⟨e, hplan⟩ <;> rw [hplan] at hfinished <;>
        cases hfinished
  | @begun a ops => cases ops <;> cases hfinished
  | @through a done op rest => cases rest <;> cases hfinished
  | @recorded a done x y buttons rest => cases rest <;> cases hfinished
  | released =>
      cases hfinished
      exact .inr ⟨rfl, rfl⟩
  | _ => cases hfinished

end Part.Goes

/-! ## The invariant -/

/-- Every plan is the plan of its request, for a size that the request read. -/
structure Planned (jobs : List Job) (drag : DragPacing) (γ : Nat → Part)
    (t : List (Tasks.Entry ServeSig)) : Prop where
  asks : ∀ i action, γ i = .fresh action ∨ (∃ ops, (γ i).plan? = some (action, ops)) →
    ∃ n, jobOf jobs i = some (.computer n action)
  plans : ∀ i action ops, (γ i).plan? = some (action, ops) →
    ∃ size : UInt16 × UInt16, ⟨i, .inl (.inl .size), size⟩ ∈ t ∧
      plan action { width := size.1, height := size.2, drag } = .ok ops

/-- The record of the cursor is the position of the last PointerEvent, but
for one that a turn has not recorded yet. -/
structure Tracked (γ : Nat → Part) (t : List (Tasks.Entry ServeSig)) (cursor : Coordinate) :
    Prop where
  free : (∀ i, ¬ (γ i).Holds) → cursor = lastPosition (received t)
  turn : ∀ i, (γ i).Holds → ∃ before after, t = before ++ acquires i :: after ∧
    received t = received before ++ (γ i).sent ∧
    cursor = lastPosition (received before ++ inputs (γ i).through)
  read : ∀ i cursor, (γ i).cursor? = some cursor → ∃ before after,
    t = before ++ acquires i :: after ∧
    cursor = lastPosition (received before ++ inputs (γ i).through)

/-- A turn that is over is over for one of two reasons. -/
structure Closed (γ : Nat → Part) (t : List (Tasks.Entry ServeSig)) : Prop where
  cut : ∀ i, (γ i).Cut
  refused : ∀ i, (γ i).Computing → (Refused i t ↔ (γ i).Failing)
  left : ∀ i, letsGo i ∈ t → ¬ (γ i).Computing
  gone : ∀ i action done rest cursor, γ i = .released action done rest cursor →
    ∃ before after, t = before ++ letsGo i :: after ∧ (Refused i before ↔ rest ≠ [])

theorem refused_snoc (i : Nat) (t : List (Tasks.Entry ServeSig)) (e : Tasks.Entry ServeSig) :
    Refused i (t ++ [e]) ↔ Refused i t ∨ (e.task = i ∧ Refuses e) := by
  simp only [Refused, List.mem_append, List.mem_singleton]
  constructor
  · intro ⟨e', hmem, htask, hrefuses⟩
    rcases hmem with hmem | rfl
    · exact .inl ⟨e', hmem, htask, hrefuses⟩
    · exact .inr ⟨htask, hrefuses⟩
  · intro h
    rcases h with ⟨e', hmem, htask, hrefuses⟩ | ⟨htask, hrefuses⟩
    · exact ⟨e', .inl hmem, htask, hrefuses⟩
    · exact ⟨e, .inr rfl, htask, hrefuses⟩

section

variable {jobs : List Job} {drag : DragPacing} {γ : Nat → Part}
  {t : List (Tasks.Entry ServeSig)} {c : Tasks ServeSig Left Reply Desk Own} {i : Nat} {m : Choice}
  {o : ServeSig.Op} {own own' : Own} {r : ServeSig.Resp o} {s' : Desk} {part' : Part}

theorem planned_step (h : Planned jobs drag γ t) (hgoes : (γ i).Goes drag o r part') :
    Planned jobs drag (Function.update γ i part') (t ++ [⟨i, o, r⟩]) := by
  refine ⟨fun j action hasks => ?_, fun j action ops hplan => ?_⟩
  · by_cases hji : j = i
    · subst hji
      rw [Function.update_self] at hasks
      rcases hasks with hfresh | ⟨ops, hplan⟩
      · exact h.asks j action (.inl (hgoes.fresh hfresh))
      · rcases hgoes.plan (i := j) hplan with hplan | ⟨hfresh, _⟩
        · exact h.asks j action (.inr ⟨ops, hplan⟩)
        · exact h.asks j action (.inl hfresh)
    · rw [Function.update_of_ne hji] at hasks
      exact h.asks j action hasks
  · have hearlier : (γ j).plan? = some (action, ops) → ∃ size : UInt16 × UInt16,
        ⟨j, .inl (.inl .size), size⟩ ∈ t ++ [⟨i, o, r⟩] ∧
          plan action { width := size.1, height := size.2, drag } = .ok ops := by
      intro hplan
      obtain ⟨size, hmem, hok⟩ := h.plans j action ops hplan
      exact ⟨size, List.mem_append_left _ hmem, hok⟩
    by_cases hji : j = i
    · subst hji
      rw [Function.update_self] at hplan
      rcases hgoes.plan (i := j) hplan with hplan | ⟨_, size, hentry, hok⟩
      · exact hearlier hplan
      · exact ⟨size, List.mem_append_right _ (by rw [hentry]; exact List.mem_singleton.mpr rfl), hok⟩
    · rw [Function.update_of_ne hji] at hplan
      exact hearlier hplan

/-- A turn that goes on, or ends, is tracked. -/
theorem Tracked.turn_next (hturns : Turns γ t c) (h : Tracked γ t c.shared.2.cursor)
    (hgoes : (γ i).Goes drag o r part') (hholds : (γ i).Holds) (hkept : part'.Kept)
    (hdoes : serveDoes o m c.shared own = some (r, s', own')) :
    ∃ before after, t ++ [⟨i, o, r⟩] = before ++ acquires i :: after ∧
      received (t ++ [⟨i, o, r⟩]) = received before ++ part'.sent ∧
      s'.2.cursor = lastPosition (received before ++ inputs part'.through) := by
  obtain ⟨before, after, ht, hreceived, hcursor⟩ := h.turn i hholds
  refine ⟨before, after ++ [⟨i, o, r⟩], ?_, ?_, ?_⟩
  · rw [ht, List.append_assoc, List.cons_append]
  · rw [received_append, hreceived, received_singleton,
      hgoes.sent (i := i) (hturns.mute i) (hturns.fits i), List.append_assoc]
  · rw [cursor_after hdoes, hcursor, hgoes.record hholds hkept]

/-- A step of a task that does not hold the hands sends nothing and records
nothing. -/
theorem quiet_step (hturns : Turns γ t c) (hgoes : (γ i).Goes drag o r part')
    (hfree : ¬ (γ i).Holds) (hdoes : serveDoes o m c.shared own = some (r, s', own')) :
    received (t ++ [⟨i, o, r⟩]) = received t ∧ s'.2.cursor = c.shared.2.cursor := by
  refine ⟨?_, ?_⟩
  · have hnone : accepts? ⟨i, o, r⟩ = none := by
      cases haccepts : accepts? ⟨i, o, r⟩ with
      | none => rfl
      | some event => exact absurd (holds_of_accepts hturns hgoes haccepts) hfree
    rw [received_append, received_singleton, hnone]
    exact List.append_nil _
  · rw [cursor_after hdoes, hgoes.unrecorded hfree]
    rfl

/-- A turn begins when nobody holds the hands, with nothing done. -/
theorem lock_step (hturns : Turns γ t c) (hgoes : (γ i).Goes drag o r part')
    (hfree : ¬ (γ i).Holds) (hholds : part'.Holds)
    (hdoes : serveDoes o m c.shared own = some (r, s', own')) :
    (⟨i, o, r⟩ : Tasks.Entry ServeSig) = acquires i ∧ part'.through = [] ∧ part'.sent = [] ∧
      ∀ j, ¬ (γ j).Holds := by
  have hlock : o = .inr .lock := by
    by_contra hlock
    by_cases hunlock : o = .inr .unlock
    · subst hunlock
      exact hfree hgoes.unlocked.1
    · exact hfree ((hgoes.holds hlock hunlock).1.mp hholds)
  subst hlock
  obtain ⟨action, ops, _, rfl⟩ := hgoes.queued
  obtain ⟨hexec, _, _⟩ := serveDoes_inr hdoes
  refine ⟨rfl, begin_through _ _ _, begin_sent _ _ _, fun j hj => ?_⟩
  rw [Hands.exec, if_pos (hturns.held.mpr ⟨j, hj⟩)] at hexec
  cases hexec

theorem tracked_step (hturns : Turns γ t c) (h : Tracked γ t c.shared.2.cursor)
    (hgoes : (γ i).Goes drag o r part') (hkept : part'.Kept)
    (hdoes : serveDoes o m c.shared own = some (r, s', own')) :
    Tracked (Function.update γ i part') (t ++ [⟨i, o, r⟩]) s'.2.cursor := by
  have hself : Function.update γ i part' i = part' := Function.update_self _ _ _
  have hother : ∀ {j}, j ≠ i → Function.update γ i part' j = γ j :=
    fun hji => Function.update_of_ne hji _ _
  refine ⟨fun hnone => ?_, fun j hj => ?_, fun j cursor hread => ?_⟩
  · by_cases hholds : (γ i).Holds
    · obtain ⟨before, after, _, hreceived, hcursor⟩ :=
        Tracked.turn_next hturns h hgoes hholds hkept hdoes
      have hfree : ¬ part'.Holds := by
        have := hnone i
        rwa [hself] at this
      rw [hcursor, hreceived, Part.sent_of_free hfree]
    · obtain ⟨hreceived, hcursor⟩ := quiet_step hturns hgoes hholds hdoes
      rw [hreceived, hcursor]
      refine h.free (fun j => ?_)
      by_cases hji : j = i
      · rw [hji]
        exact hholds
      · have := hnone j
        rwa [hother hji] at this
  · by_cases hholds : (γ i).Holds
    · have hji : j = i := by
        by_contra hji
        rw [hother hji] at hj
        exact hji (hturns.one j i hj hholds)
      rw [hji, hself]
      exact Tracked.turn_next hturns h hgoes hholds hkept hdoes
    · obtain ⟨hreceived, hcursor⟩ := quiet_step hturns hgoes hholds hdoes
      rw [hreceived, hcursor]
      by_cases hji : j = i
      · rw [hji, hself] at hj ⊢
        obtain ⟨hbegun, hthrough, hsent, hnone⟩ := lock_step hturns hgoes hholds hj hdoes
        refine ⟨t, [], by rw [hbegun], ?_, ?_⟩
        · rw [hsent, List.append_nil]
        · rw [hthrough, h.free hnone]
          exact congrArg lastPosition (List.append_nil _).symm
      · rw [hother hji] at hj ⊢
        obtain ⟨before, after, ht, hreceived', hcursor'⟩ := h.turn j hj
        refine ⟨before, after ++ [⟨i, o, r⟩], ?_, hreceived', hcursor'⟩
        rw [ht, List.append_assoc, List.cons_append]
  · have hearlier : (γ j).cursor? = some cursor →
        Function.update γ i part' j = γ j ∨ (Function.update γ i part' j).through = (γ j).through →
        ∃ before after, t ++ [⟨i, o, r⟩] = before ++ acquires j :: after ∧ cursor =
          lastPosition (received before ++ inputs (Function.update γ i part' j).through) := by
      intro hread hsame
      obtain ⟨before, after, ht, hcursor⟩ := h.read j cursor hread
      refine ⟨before, after ++ [⟨i, o, r⟩], ?_, ?_⟩
      · rw [ht, List.append_assoc, List.cons_append]
      · rcases hsame with hsame | hsame <;> rw [hsame] <;> exact hcursor
    by_cases hji : j = i
    · subst hji
      rw [hself] at hread hearlier ⊢
      obtain ⟨hthrough, hread | ⟨hholds, hsent, hentry⟩⟩ := hgoes.cursor (i := j) hread
      · exact hearlier hread (.inr hthrough)
      · obtain ⟨before, after, ht, hreceived, hcursor⟩ := h.turn j hholds
        cases hentry
        obtain ⟨hexec, _, _⟩ := serveDoes_inr hdoes
        obtain ⟨hread, _⟩ := Prod.mk.inj (Option.some.inj hexec)
        refine ⟨before, after ++ [⟨j, .inr .cursor, cursor⟩], ?_, ?_⟩
        · rw [ht, List.append_assoc, List.cons_append]
        · rw [hthrough, ← hread]
          exact hcursor
    · rw [hother hji] at hread
      exact hearlier hread (.inl (hother hji))

theorem closed_step (h : Closed γ t) (hfits : (γ i).Fits) (hgoes : (γ i).Goes drag o r part')
    : Closed (Function.update γ i part') (t ++ [⟨i, o, r⟩]) := by
  have hself : Function.update γ i part' i = part' := Function.update_self _ _ _
  have hother : ∀ {j}, j ≠ i → Function.update γ i part' j = γ j :=
    fun hji => Function.update_of_ne hji _ _
  have hrefused : ∀ {j}, j ≠ i → (Refused j (t ++ [⟨i, o, r⟩]) ↔ Refused j t) := by
    intro j hji
    rw [refused_snoc]
    exact or_iff_left (fun h => hji h.1.symm)
  refine ⟨fun j => ?_, fun j hj => ?_, fun j hmem => ?_, fun j action done rest cursor hj => ?_⟩
  · by_cases hji : j = i
    · subst hji
      rw [hself]
      exact hgoes.cut hfits (h.cut j)
    · rw [hother hji]
      exact h.cut j
  · by_cases hji : j = i
    · subst hji
      rw [hself] at hj ⊢
      rw [refused_snoc, h.refused j (hgoes.computing hj), hgoes.failing (i := j) hj]
      simp
    · rw [hother hji] at hj ⊢
      rw [hrefused hji]
      exact h.refused j hj
  · by_cases hji : j = i
    · subst hji
      rw [hself]
      intro hcomputing
      rcases List.mem_append.mp hmem with hmem | hmem
      · exact h.left j hmem (hgoes.computing hcomputing)
      · cases List.mem_singleton.mp hmem
        obtain ⟨_, hfree, hacquired⟩ := hgoes.unlocked
        cases part' <;> first | exact hfree trivial | exact hcomputing | exact hacquired
    · rw [hother hji]
      rcases List.mem_append.mp hmem with hmem | hmem
      · exact h.left j hmem
      · cases List.mem_singleton.mp hmem
        exact absurd rfl hji
  · have hearlier : γ j = .released action done rest cursor →
        ∃ before after, t ++ [⟨i, o, r⟩] = before ++ letsGo j :: after ∧
          (Refused j before ↔ rest ≠ []) := by
      intro hj
      obtain ⟨before, after, ht, hwhy⟩ := h.gone j action done rest cursor hj
      refine ⟨before, after ++ [⟨i, o, r⟩], ?_, hwhy⟩
      rw [ht, List.append_assoc, List.cons_append]
    by_cases hji : j = i
    · subst hji
      rw [hself] at hj
      rcases hgoes.finished hj with hpart | ⟨hpart, rfl⟩
      · exact hearlier hpart
      · refine ⟨t, [], rfl, ?_⟩
        rw [h.refused j (by rw [hpart]; trivial), hpart]
        rfl
    · rw [hother hji] at hj
      exact hearlier hj

end

/-- What holds in every run in which no handler is dropped with the hands
held. -/
structure Braided (jobs : List Job) (drag : DragPacing) (γ : Nat → Part)
    (t : List (Tasks.Entry ServeSig)) (c : Tasks ServeSig Left Reply Desk Own) : Prop where
  turns : Turns γ t c
  kept : ∀ i, (γ i).Kept
  planned : Planned jobs drag γ t
  tracked : Tracked γ t c.shared.2.cursor
  closed : Closed γ t

/-- What a job's part says at the start. -/
theorem job_fresh (job : Job) : job.part.Kept ∧ job.part.plan? = none ∧
    job.part.cursor? = none ∧ job.part.Cut ∧ ¬ job.part.Failing ∧
    ∀ action, job.part = .fresh action → ∃ n, job = .computer n action := by
  cases job with
  | computer n action =>
      refine ⟨trivial, rfl, rfl, trivial, fun h => h, fun action' h => ?_⟩
      cases h
      exact ⟨n, rfl⟩
  | _ => exact ⟨trivial, rfl, rfl, trivial, fun h => h, fun action h => by cases h⟩

/-- What every task's part says at the start. -/
theorem serviceParts_fresh (continuous : Bool) (jobs : List Job) (i : Nat) :
    (serviceParts continuous jobs i).Kept ∧ (serviceParts continuous jobs i).plan? = none ∧
    (serviceParts continuous jobs i).cursor? = none ∧ (serviceParts continuous jobs i).Cut ∧
    ¬ (serviceParts continuous jobs i).Failing ∧
    ∀ action, serviceParts continuous jobs i = .fresh action →
      ∃ n, jobOf jobs i = some (.computer n action) := by
  match i with
  | 0 => exact ⟨trivial, rfl, rfl, trivial, fun h => h, fun action h => by cases h⟩
  | 1 => exact ⟨trivial, rfl, rfl, trivial, fun h => h, fun action h => by cases h⟩
  | 2 => exact ⟨trivial, rfl, rfl, trivial, fun h => h, fun action h => by cases h⟩
  | j + 3 =>
      simp only [serviceParts, jobOf]
      cases jobs[j]? with
      | none => exact ⟨trivial, rfl, rfl, trivial, fun h => h, fun action h => by cases h⟩
      | some job =>
          obtain ⟨hkept, hplan, hcursor, hcut, hfailing, hfresh⟩ := job_fresh job
          refine ⟨hkept, hplan, hcursor, hcut, hfailing, fun action h => ?_⟩
          obtain ⟨n, rfl⟩ := hfresh action h
          exact ⟨n, rfl⟩

section

variable {z : Decompress} {width height : UInt16} {name : String} {continuous : Bool} {n m : Nat}
  {d : Decoders z} {time : Duration} {config : HandlerConfig} {jobs : List Job}
  {t : List (Tasks.Entry ServeSig)} {c : Tasks ServeSig Left Reply Desk Own}

theorem braided_start (z : Decompress) (width height : UInt16) (name : String)
    (continuous : Bool) (n m : Nat) (d : Decoders z) (time : Duration) (config : HandlerConfig)
    (jobs : List Job) :
    Braided jobs config.drag (serviceParts continuous jobs) []
      (service width height name continuous n m d time config jobs) := by
  have hturns := turns_start width height name continuous n m d time config jobs
  have hfresh := serviceParts_fresh continuous jobs
  have hnobody : ∀ j, ¬ (serviceParts continuous jobs j).Acquired := by
    intro j hj
    have hmem := (hturns.turns j).mpr hj
    cases hmem
  refine ⟨hturns, fun j => (hfresh j).1, ⟨fun j action hasks => ?_, fun j action ops hplan => ?_⟩,
    ⟨fun _ => rfl, fun j hj => (hnobody j hj.acquired).elim, fun j cursor hcursor => ?_⟩,
    ⟨fun j => (hfresh j).2.2.2.1, fun j _ => ?_, fun j hmem => (by cases hmem),
      fun j action done rest cursor hj => ?_⟩⟩
  · rcases hasks with hasks | ⟨ops, hplan⟩
    · exact (hfresh j).2.2.2.2.2 action hasks
    · rw [(hfresh j).2.1] at hplan
      cases hplan
  · rw [(hfresh j).2.1] at hplan
    cases hplan
  · rw [(hfresh j).2.2.1] at hcursor
    cases hcursor
  · exact iff_of_false (fun ⟨_, hmem, _⟩ => by cases hmem) (hfresh j).2.2.2.2.1
  · exact (hnobody j (by rw [hj]; trivial)).elim

/-- The invariant holds after every run. -/
theorem braided_runs (h : Tasks.Runs serveDoes Undropped
    (service width height name continuous n m d time config jobs) t c) :
    ∃ γ, Tasks.Roles (parts continuous config.drag) Part.Ended γ c ∧
      Braided jobs config.drag γ t c := by
  refine service_joint h (braided_start z width height name continuous n m d time config jobs) ?_
  intro t c γ i m o k own r s' own' part' hundropped h htask hgoes hdoes
  have hkept := hgoes.kept (h.kept i) (hundropped.not_drops htask hdoes)
  refine ⟨turns_step h.turns hgoes hdoes, fun j => ?_, planned_step h.planned hgoes,
    tracked_step h.turns h.tracked hgoes hkept hdoes,
    closed_step h.closed (h.turns.fits i) hgoes⟩
  by_cases hji : j = i
  · rw [hji, Function.update_self]
    exact hkept
  · rw [Function.update_of_ne hji]
    exact h.kept j

/-- A request that has acquired the hands performs its plan. -/
theorem Braided.performs {γ : Nat → Part} {i : Nat} (h : Braided jobs config.drag γ t c)
    (hi : i ∈ acquired t) : ∃ n action ops, ∃ size : UInt16 × UInt16,
      jobOf jobs i = some (.computer n action) ∧ ⟨i, .inl (.inl .size), size⟩ ∈ t ∧
      plan action { width := size.1, height := size.2, drag := config.drag } = .ok ops ∧
      Performs i ops t := by
  have hacquired := (h.turns.turns i).mp hi
  have hplanned : ∀ action ops, (γ i).plan? = some (action, ops) → Performs i ops t →
      ∃ n action ops, ∃ size : UInt16 × UInt16,
      jobOf jobs i = some (.computer n action) ∧ ⟨i, .inl (.inl .size), size⟩ ∈ t ∧
      plan action { width := size.1, height := size.2, drag := config.drag } = .ok ops ∧
      Performs i ops t := by
    intro action ops hplan hperforms
    obtain ⟨n, hjob⟩ := h.planned.asks i action (.inr ⟨ops, hplan⟩)
    obtain ⟨size, hmem, hok⟩ := h.planned.plans i action ops hplan
    exact ⟨n, action, ops, size, hjob, hmem, hok, hperforms⟩
  have hsent := h.turns.sent i
  have hkept := h.kept i
  have hleft := h.closed.left i
  cases hpart : γ i with
  | acting action done op rest step =>
      rw [hpart] at hsent hleft
      refine hplanned action (done ++ op :: rest) (by rw [hpart]; rfl)
        (.underway (fun hmem => hleft hmem trivial) ?_)
      rw [hsent]
      exact Part.sent_prefix rfl
  | ending action done rest finish =>
      rw [hpart] at hsent hleft
      refine hplanned action (done ++ rest) (by rw [hpart]; rfl)
        (.underway (fun hmem => hleft hmem trivial) ?_)
      rw [hsent]
      exact Part.sent_prefix rfl
  | released action done rest cursor =>
      obtain ⟨before, after, ht, hwhy⟩ := h.closed.gone i action done rest cursor hpart
      have hcut := h.closed.cut i
      rw [hpart] at hsent hcut
      cases rest with
      | nil =>
          refine hplanned action (done ++ []) (by rw [hpart]; rfl)
            (.whole ht (fun hrefused => hwhy.mp hrefused rfl) ?_)
          rw [hsent, List.append_nil]
          rfl
      | cons op rest =>
          exact hplanned action (done ++ op :: rest) (by rw [hpart]; rfl)
            (.cut ht (hwhy.mpr (List.cons_ne_nil _ _)) rfl (hcut op rfl) hsent)
  | dropping action done rest =>
      rw [hpart] at hkept
      exact hkept.elim
  | dropped action done rest =>
      rw [hpart] at hkept
      exact hkept.elim
  | _ =>
      rw [hpart] at hacquired
      exact hacquired.elim

/-- A request is answered with the cursor of its turn. -/
theorem Braided.tells {γ : Nat → Part} {i : Nat} {response : ComputerResponse} {own : Own}
    (h : Braided jobs config.drag γ t c)
    (hroles : Tasks.Roles (parts continuous config.drag) Part.Ended γ c)
    (hanswer : c.tasks[i]? = some (.ret (.computer response), own)) :
    ∃ n action before after, jobOf jobs i = some (.computer n action) ∧
      t = before ++ acquires i :: after ∧
      response.coordinate = action.tells (lastPosition (received before)) := by
  have hended : (γ i).Ended (.computer response) := hroles i _ _ hanswer
  cases hpart : γ i with
  | released action done rest cursor =>
      rw [hpart] at hended
      obtain ⟨rfl, response', heq, htells⟩ := hended
      cases heq
      have hplan : (γ i).plan? = some (action, done ++ []) := by
        rw [hpart]
        rfl
      obtain ⟨n, hjob⟩ := h.planned.asks i action (.inr ⟨_, hplan⟩)
      obtain ⟨size, _, hok⟩ := h.planned.plans i action _ hplan
      obtain ⟨before, after, ht, hcursor⟩ := h.tracked.read i cursor (by rw [hpart]; rfl)
      refine ⟨n, action, before, after, hjob, ht, ?_⟩
      rw [htells]
      cases action with
      | cursorPosition =>
          -- the plan is empty, so nothing has been sent in this turn
          have hnothing : done ++ [] = [] := (Except.ok.inj hok).symm
          rw [hcursor, hpart]
          rw [List.append_nil] at hnothing
          subst hnothing
          exact congrArg (fun events => some (lastPosition events)) (List.append_nil _)
      | _ => rfl
  | watching =>
      rw [hpart] at hended
      exact absurd rfl (hended response)
  | session role =>
      rw [hpart] at hended
      cases hended
  | _ =>
      rw [hpart] at hended
      exact hended.elim

/-- **Actions never braid, and the cursor record is true**: the session
receives the events of one request after another, in the order in which the
requests acquired the hands, and each request's are its plan's, or what comes
in it before the call of the session that failed. A request that is answered
with the cursor is answered with the position of the last PointerEvent before
its turn. -/
theorem actions_never_braid (h : Tasks.Runs serveDoes Undropped
    (service width height name continuous n m d time config jobs) t c) :
    received t = (acquired t).flatMap (fun i => sentBy i t) ∧ (acquired t).Nodup ∧
      (∀ i ∈ acquired t, ∃ n action ops, ∃ size : UInt16 × UInt16,
        jobOf jobs i = some (.computer n action) ∧ ⟨i, .inl (.inl .size), size⟩ ∈ t ∧
        plan action { width := size.1, height := size.2, drag := config.drag } = .ok ops ∧
        Performs i ops t) ∧
      ∀ i response own, c.tasks[i]? = some (.ret (.computer response), own) →
        ∃ n action before after, jobOf jobs i = some (.computer n action) ∧
          t = before ++ acquires i :: after ∧
          response.coordinate = action.tells (lastPosition (received before)) := by
  obtain ⟨γ, hroles, hbraided⟩ := braided_runs h
  exact ⟨hbraided.turns.received, hbraided.turns.nodup, fun i => hbraided.performs,
    fun i response own => hbraided.tells hroles⟩

end

/-! ## Two requests at once -/

/-- A server with a request to move the pointer, and one for where it is. -/
def asking : Tasks ServeSig Left Reply Desk Own :=
  service 8 8 "desktop" false 0 0 (Decoders.new stored) 0
    ⟨⟨500000000, 5000000000⟩, ⟨20, 20, 150⟩⟩
    [.computer 0 (.mouseMove (3, 4)), .computer 0 .cursorPosition]

/-- A step that drops no handler. -/
def undropped? (_t : List (Tasks.Entry ServeSig)) (c : Tasks ServeSig Left Reply Desk Own)
    (i : Nat) (m : Choice) : Bool :=
  match c.tasks[i]? with
  | some (.step (.inr .suspend) _, _) => !m.elapsed
  | _ => true

theorem undropped_of_check (t : List (Tasks.Entry ServeSig))
    (c : Tasks ServeSig Left Reply Desk Own) (i : Nat) (m : Choice)
    (h : undropped? t c i m = true) : Undropped t c i m where
  stays k own htask := by
    rw [undropped?, htask] at h
    exact (Bool.not_eq_true' _).mp h

/-- Both requests read the size before either has the hands. -/
def asked : List (Nat × Choice) :=
  moves 3 [[]] ++ moves 4 [[]] ++ moves 3 (List.replicate 9 []) ++ moves 4 [[], [], []]

/-- The pointer is moved, and the request behind it is told where to. -/
theorem actions_never_braid_two :
    ∃ t c, Tasks.Runs serveDoes Undropped asking t c ∧ acquired t = [3, 4] ∧
      received t = [.pointer 3 4 0] ∧
      received t = (acquired t).flatMap (fun i => sentBy i t) := by
  have hend : (asking.record undropped? serveDoes asked []).map
      (fun e => (acquired e.1, received e.1)) = some ([3, 4], [.pointer 3 4 0]) := by
    decide +kernel
  obtain ⟨⟨t, c⟩, hrecord, heq⟩ := Option.map_eq_some_iff.mp hend
  obtain ⟨hacquired, hreceived⟩ := Prod.mk.inj heq
  have hrun := Tasks.runs_record undropped_of_check hrecord .start
  exact ⟨t, c, hrun, hacquired, hreceived, (actions_never_braid hrun).1⟩

end Bolide.Server
