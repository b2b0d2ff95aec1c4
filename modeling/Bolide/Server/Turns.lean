/-
Bolide.Server.Turns — one action at a time.

The invariant behind every law about actions: who holds the hands, in what
order they were acquired, and what each handler has sent. `Turns` is kept by
every step of a server, dropped handlers and failed sessions included.
-/
import Bolide.Server.Parts

namespace Bolide.Server

open Lib Prog Bolide.Rfb

/-! ## What an operation leaves -/

variable {continuous : Bool} {drag : DragPacing}

/-- An operation on the hands leaves the rest alone. -/
theorem serveDoes_inr {o : HandsOp} {m : Choice} {s s' : Desk} {own own' : Own} {r : o.Resp}
    (h : serveDoes (.inr o) m s own = some (r, s', own')) :
    Hands.exec o m s.2 = some (r, s'.2) ∧ s'.1 = s.1 ∧ own' = own := by
  obtain ⟨⟨r', hands⟩, hexec, heq⟩ := Option.map_eq_some_iff.mp h
  cases heq
  exact ⟨hexec, rfl, rfl⟩

/-- Every other operation leaves the hands alone. -/
theorem serveDoes_inl {o : (SessionSig.sum AppSig).Op} {m : Choice} {s s' : Desk}
    {own own' : Own} {r : (SessionSig.sum AppSig).Resp o}
    (h : serveDoes (.inl o) m s own = some (r, s', own')) :
    serverDoes o m s.1 own = some (r, s'.1, own') ∧ s'.2 = s.2 := by
  obtain ⟨⟨r', desk, own''⟩, hdoes, heq⟩ := Option.map_eq_some_iff.mp h
  cases heq
  exact ⟨hdoes, rfl⟩

/-- An operation on the session is one of its own. -/
theorem serveDoes_session {o : Op} {m : Choice} {s s' : Desk} {own own' : Own} {r : o.Resp}
    (h : serveDoes (.inl (.inl o)) m s own = some (r, s', own')) :
    sessionDoes o m s.1.1 own = some (r, s'.1.1, own') ∧ s'.1.2 = s.1.2 ∧ s'.2 = s.2 := by
  obtain ⟨hdoes, hhands⟩ := serveDoes_inl h
  obtain ⟨⟨inner, app⟩, hands⟩ := s'
  obtain ⟨⟨r', inner', own''⟩, hdoes, heq⟩ := Option.map_eq_some_iff.mp hdoes
  cases heq
  exact ⟨hdoes, rfl, hhands⟩

/-- An operation of the server's own leaves the session alone. -/
theorem serveDoes_app {o : AppOp} {m : Choice} {s s' : Desk} {own own' : Own} {r : o.Resp}
    (h : serveDoes (.inl (.inr o)) m s own = some (r, s', own')) :
    App.exec o s.1.2 = some (r, s'.1.2) ∧ s'.1.1 = s.1.1 ∧ s'.2 = s.2 := by
  obtain ⟨hdoes, hhands⟩ := serveDoes_inl h
  obtain ⟨⟨inner, app⟩, hands⟩ := s'
  obtain ⟨⟨r', app'⟩, hexec, heq⟩ := Option.map_eq_some_iff.mp hdoes
  cases heq
  exact ⟨hexec, rfl, hhands⟩

/-- Only a stamp and a screenshot change the record of the last input. -/
theorem lastInput_after {o : ServeSig.Op} {m : Choice} {s s' : Desk} {own own' : Own}
    {r : ServeSig.Resp o} (hstamp : o ≠ .inl (.inr .stampInput))
    (htake : o ≠ .inl (.inr .takeLastInput)) (hdoes : serveDoes o m s own = some (r, s', own')) :
    s'.1.2.lastInput = s.1.2.lastInput := by
  cases o with
  | inr o => rw [(serveDoes_inr hdoes).2.1]
  | inl o =>
      cases o with
      | inl o => rw [(serveDoes_session hdoes).2.1]
      | inr o =>
          obtain ⟨hexec, _, _⟩ := serveDoes_app hdoes
          cases o with
          | takeLastInput => exact absurd rfl htake
          | stampInput => exact absurd rfl hstamp
          | sleepUntil deadline =>
              rw [App.exec] at hexec
              split at hexec
              · obtain ⟨_, heq⟩ := Prod.mk.inj (Option.some.inj hexec)
                rw [← heq]
              · cases hexec
          | _ =>
              obtain ⟨_, heq⟩ := Prod.mk.inj (Option.some.inj hexec)
              rw [← heq]

/-! ## What has been sent -/

theorem received_append (t t' : List (Tasks.Entry ServeSig)) :
    received (t ++ t') = received t ++ received t' := List.filterMap_append

theorem received_singleton (e : Tasks.Entry ServeSig) : received [e] = (accepts? e).toList := by
  cases h : accepts? e <;> simp [received, h]

theorem sentBy_snoc_self (t : List (Tasks.Entry ServeSig)) (e : Tasks.Entry ServeSig) :
    sentBy e.task (t ++ [e]) = sentBy e.task t ++ (accepts? e).toList := by
  rw [sentBy, List.filter_append, received_append, ← received_singleton]
  simp [sentBy]

theorem sentBy_snoc_of_ne {i : Nat} (t : List (Tasks.Entry ServeSig)) (e : Tasks.Entry ServeSig)
    (h : e.task ≠ i) : sentBy i (t ++ [e]) = sentBy i t := by
  simp [sentBy, h]

theorem acquired_append (t t' : List (Tasks.Entry ServeSig)) :
    acquired (t ++ t') = acquired t ++ acquired t' := List.filterMap_append

theorem acquired_singleton (e : Tasks.Entry ServeSig) : acquired [e] = (acquires? e).toList := by
  cases h : acquires? e <;> simp [acquired, h]

/-- The message of an event is read back as the event. -/
theorem Input.ofMessage_message (event : Input) : Input.ofMessage? event.message = some event := by
  cases event with
  | pointer x y buttons =>
      obtain ⟨a, b, hx, hox⟩ := be16_eq x
      obtain ⟨c, d, hy, hoy⟩ := be16_eq y
      simp only [Input.message, pointerEvent, ClientMsg.pointerEvent, hx, hy, List.cons_append,
        List.nil_append, Input.ofMessage?, hox, hoy]
  | key keysym down =>
      match h : be32 keysym, length_be32 keysym with
      | [a, b, c, d], _ =>
          have hk : ofBe32 [a, b, c, d] = keysym := by rw [← h, ofBe32_be32]
          simp only [Input.message, keyEvent, ClientMsg.keyEvent, h, List.cons_append,
            List.nil_append, Input.ofMessage?, hk]
          cases down <;> rfl

/-! ## What a part says of it -/

namespace Part

/-- The task holds the hands. -/
def Holds : Part → Prop
  | acting _ _ _ _ _ => True
  | ending _ _ _ _ => True
  | dropping _ _ _ => True
  | _ => False

/-- The task has held the hands, or does. -/
def Acquired : Part → Prop
  | acting _ _ _ _ _ => True
  | ending _ _ _ _ => True
  | released _ _ _ _ => True
  | dropping _ _ _ => True
  | dropped _ _ _ => True
  | _ => False

/-- The event of the operation in hand, once the session has accepted it. -/
def inHand (op : RfbOp) : Step → List Input
  | .after false => inputs [op]
  | .record => inputs [op]
  | _ => []

/-- The events the task has sent. -/
def sent : Part → List Input
  | acting _ done op _ stage => inputs done ++ inHand op stage
  | ending _ done _ _ => inputs done
  | released _ done _ _ => inputs done
  | dropping _ done _ => inputs done
  | dropped _ done _ => inputs done
  | _ => []

/-- What the task sends for its session is no event. -/
def Mute : Part → Prop
  | session (.sender (.write bytes) _) => Input.ofMessage? bytes = none
  | _ => True

/-- A plan is at an operation that has the step it stands at. -/
def Fits : Part → Prop
  | acting _ _ op _ .check => op.isInput = true
  | acting _ _ op _ .push => op.isInput = true
  | acting _ _ op _ .now => op.isInput = false
  | acting _ _ op _ .doze => op.isInput = false
  | acting _ _ op _ (.after true) => op.isInput = true
  | acting _ _ op _ .record => op.isInput = true
  | _ => True

end Part

/-- An operation that sends no event. -/
theorem inputs_of_not_input {op : RfbOp} (h : op.isInput = false) : inputs [op] = [] := by
  cases op with
  | sleep ms => rfl
  | _ => cases h

theorem begin_sent (action : ComputerAction) (done rest : List RfbOp) :
    (Part.begin action done rest).sent = inputs done := by
  cases rest with
  | nil => rfl
  | cons op rest => exact List.append_nil _

theorem begin_holds (action : ComputerAction) (done rest : List RfbOp) :
    (Part.begin action done rest).Holds := by
  cases rest <;> trivial

theorem begin_fits (action : ComputerAction) (done rest : List RfbOp) :
    (Part.begin action done rest).Fits := by
  cases rest <;> trivial

theorem planned_cases (drag : DragPacing) (action : ComputerAction) (size : UInt16 × UInt16) :
    (∃ ops, Part.planned drag action size = .queued action ops) ∨
      ∃ e, Part.planned drag action size = .rejected e := by
  unfold Part.planned
  split
  · next ops _ => exact .inl ⟨ops, rfl⟩
  · next e _ => exact .inr ⟨e, rfl⟩

/-- Whoever holds the hands has acquired them. -/
theorem Part.Holds.acquired {part : Part} (h : part.Holds) : part.Acquired := by
  cases part with
  | acting action done op rest stage => trivial
  | ending action done rest finish => trivial
  | dropping action done rest => trivial
  | _ => exact h.elim

/-! ## One operation of one task -/

/-- Where an operation takes a part, and what it says of both. -/
inductive Part.Goes (drag : DragPacing) : Part → (o : ServeSig.Op) → ServeSig.Resp o → Part → Prop
  | session {role role' : Rfb.Role} {o r} : role.may o →
      (session role).Mute = (session role').Mute →
      Goes drag (session role) (.inl (.inl o)) r (session role')
  | watches {part o r} : part.Watching → Watches o → Goes drag part (.inl o) r part
  | sized {action} (size : UInt16 × UInt16) :
      Goes drag (fresh action) (.inl (.inl .size)) size (planned drag action size)
  | begun {action ops r} : Goes drag (queued action ops) (.inr .lock) r (begin action [] ops)
  | resumed {action done op rest} : Goes drag (acting action done op rest .before)
      (.inr .suspend) false (acting action done op rest (first op))
  | asked {action done op rest} (connected : Bool) :
      Goes drag (acting action done op rest .check) (.inl (.inl .loadConnected)) connected
        (acting action done op rest (asked connected))
  | pushed {action done op rest event} (accepted : Bool) : op.input? = some event →
      Goes drag (acting action done op rest .push) (.inl (.inl (.push (.write event.message))))
        accepted (acting action done op rest (.after (!accepted)))
  | timed {action done op rest} (now : Duration) :
      Goes drag (acting action done op rest .now) (.inl (.inr .now)) now
        (acting action done op rest .doze)
  | slept {action done op rest deadline r} :
      Goes drag (acting action done op rest .doze) (.inl (.inr (.sleepUntil deadline))) r
        (acting action done op rest (.after false))
  | moved {action done x y buttons rest} :
      Goes drag (acting action done (.pointer x y buttons) rest (.after false)) (.inr .suspend)
        false (acting action done (.pointer x y buttons) rest .record)
  | through {action done op rest} : (∀ x y buttons, op ≠ .pointer x y buttons) →
      Goes drag (acting action done op rest (.after false)) (.inr .suspend) false
        (begin action (done ++ [op]) rest)
  | recorded {action done x y buttons rest r} :
      Goes drag (acting action done (.pointer x y buttons) rest .record)
        (.inr (.setCursor (position x y))) r (begin action (done ++ [.pointer x y buttons]) rest)
  | failed {action done op rest} : Goes drag (acting action done op rest (.after true))
      (.inr .suspend) false (ending action done (op :: rest) (.of (done ++ op :: rest)))
  | leaves {action done op rest step} : step = .before ∨ step = .after true →
      Goes drag (acting action done op rest step) (.inr .suspend) true
        (dropping action done (op :: rest))
  | departs {action done op rest} : Goes drag (acting action done op rest (.after false))
      (.inr .suspend) true (dropping action (done ++ [op]) rest)
  | stamped {action done rest r} : Goes drag (ending action done rest .stamp)
      (.inl (.inr .stampInput)) r (ending action done rest .read)
  | read {action done rest} (cursor : Coordinate) : Goes drag (ending action done rest .read)
      (.inr .cursor) cursor (ending action done rest (.release cursor))
  | released {action done rest cursor r} : Goes drag (ending action done rest (.release cursor))
      (.inr .unlock) r (released action done rest cursor)
  | dropped {action done rest r} : Goes drag (dropping action done rest) (.inr .unlock) r
      (dropped action done rest)

/-- Every operation of a part takes it somewhere. -/
theorem Part.goes {part : Part} {o : ServeSig.Op} (hmay : part.may o) (r : ServeSig.Resp o) :
    part.Goes drag o r (part.next continuous drag o r) := by
  cases part with
  | session role =>
      obtain ⟨o', rfl, hmay⟩ := hmay
      refine .session hmay ?_
      cases role with
      | sender command sending => cases command <;> rfl
      | _ => rfl
  | watching =>
      obtain ⟨o', rfl, hwatches⟩ := hmay
      exact .watches trivial hwatches
  | fresh action =>
      cases hmay
      exact .sized r
  | rejected e => exact hmay.elim
  | queued action ops =>
      cases hmay
      exact .begun
  | acting action done op rest stage =>
      cases stage with
      | before =>
          cases hmay
          cases (r : Bool) with
          | false => exact .resumed
          | true => exact .leaves (.inl rfl)
      | check =>
          cases hmay
          exact .asked r
      | push =>
          obtain ⟨event, hop, rfl⟩ := hmay
          exact .pushed r hop
      | now =>
          cases hmay
          exact .timed r
      | doze =>
          obtain ⟨deadline, rfl⟩ := hmay
          exact .slept
      | after failed =>
          cases hmay
          cases failed with
          | true =>
              cases (r : Bool) with
              | false => exact .failed
              | true => exact .leaves (.inr rfl)
          | false =>
              cases (r : Bool) with
              | true => exact .departs
              | false =>
                  cases op with
                  | pointer x y buttons => exact .moved
                  | _ => exact .through (fun x y buttons h => by cases h)
      | record =>
          obtain ⟨x, y, buttons, rfl, rfl⟩ := hmay
          exact .recorded
  | ending action done rest finish =>
      cases finish with
      | stamp =>
          cases hmay
          exact .stamped
      | read =>
          cases hmay
          exact .read r
      | release cursor =>
          cases hmay
          exact .released
  | released action done rest cursor =>
      obtain ⟨o', rfl, hwatches⟩ := hmay
      exact .watches trivial hwatches
  | dropping action done rest =>
      cases hmay
      exact .dropped
  | dropped action done rest => exact hmay.elim

section Goes

variable {part part' : Part} {i : Nat} {o : ServeSig.Op} {r : ServeSig.Resp o}

/-- A task that watches sends no event. -/
theorem accepts_watches {o : (SessionSig.sum AppSig).Op} {r : ServeSig.Resp (.inl o)}
    (h : Watches o) : accepts? ⟨i, .inl o, r⟩ = none := by
  unfold accepts?
  split
  · next bytes heq =>
      cases heq
      obtain ⟨incremental, heq⟩ := h
      cases heq
  · rfl

/-- A task of the session sends no event. -/
theorem accepts_session {role : Rfb.Role} {o : Op} {r : ServeSig.Resp (.inl (.inl o))}
    (hmay : role.may o) (hmute : (Part.session role).Mute) : accepts? ⟨i, .inl (.inl o), r⟩ = none := by
  unfold accepts?
  split
  · next bytes heq =>
      cases heq
      rcases Role.pushes hmay with rfl | ⟨h, _⟩ | ⟨_, _, h, _⟩
      · exact hmute
      · cases h
      · cases h
  · rfl

namespace Part.Goes

/-- What a task sends, the session accepts. -/
theorem sent (h : part.Goes drag o r part') (hmute : part.Mute) (hfits : part.Fits) :
    part'.sent = part.sent ++ (accepts? ⟨i, o, r⟩).toList := by
  have hsame : ∀ events : List Input, events = events ++ [] := fun events =>
    (List.append_nil events).symm
  cases h with
  | session hmay _ =>
      rw [accepts_session hmay hmute]
      exact hsame _
  | watches _ hwatches =>
      rw [accepts_watches hwatches]
      exact hsame _
  | @sized action size =>
      rcases planned_cases drag action size with ⟨ops, hplan⟩ | ⟨e, hplan⟩ <;> rw [hplan] <;> rfl
  | begun => exact begin_sent _ [] _
  | @resumed action done op rest => cases op <;> exact hsame _
  | asked connected => cases connected <;> exact hsame _
  | @pushed action done op rest event accepted hop =>
      cases accepted with
      | false => exact hsame _
      | true =>
          show inputs done ++ inputs [op] = inputs done ++ [] ++ (Input.ofMessage? _).toList
          rw [Input.ofMessage_message, List.append_nil]
          simp [inputs, hop]
  | timed now => exact hsame _
  | slept =>
      refine Eq.trans ?_ (hsame _)
      simp only [Part.sent, Part.inHand, inputs_of_not_input hfits]
  | moved => exact hsame _
  | @through action done op rest hop =>
      refine Eq.trans ?_ (hsame _)
      rw [begin_sent, inputs_append]
      rfl
  | @recorded action done x y buttons rest r =>
      refine Eq.trans ?_ (hsame _)
      rw [begin_sent, inputs_append]
      rfl
  | failed => exact (hsame _).trans (hsame _)
  | leaves hstep => rcases hstep with rfl | rfl <;> exact (hsame _).trans (hsame _)
  | @departs action done op rest => exact (inputs_append done [op]).trans (hsame _)
  | stamped => exact hsame _
  | read cursor => exact hsame _
  | released => exact hsame _
  | dropped => exact hsame _

/-- A plan stays at operations that have the steps it stands at. -/
theorem fits (h : part.Goes drag o r part') (hfits : part.Fits) : part'.Fits := by
  cases h with
  | session _ _ => trivial
  | watches _ _ => exact hfits
  | @sized action size =>
      rcases planned_cases drag action size with ⟨ops, hplan⟩ | ⟨e, hplan⟩ <;> rw [hplan] <;>
        trivial
  | begun => exact begin_fits _ _ _
  | @resumed action done op rest => cases op <;> rfl
  | asked connected => cases connected <;> exact hfits
  | pushed accepted hop =>
      cases accepted with
      | false => exact hfits
      | true => trivial
  | timed now => exact hfits
  | moved => rfl
  | through _ => exact begin_fits _ _ _
  | recorded => exact begin_fits _ _ _
  | _ => trivial

/-- A task of the session stays mute. -/
theorem mute (h : part.Goes drag o r part') (hmute : part.Mute) : part'.Mute := by
  have hbegin : ∀ action done rest, (Part.begin action done rest).Mute := by
    intro action done rest
    cases rest <;> trivial
  cases h with
  | session _ hsame => exact hsame ▸ hmute
  | watches _ _ => exact hmute
  | @sized action size =>
      rcases planned_cases drag action size with ⟨ops, hplan⟩ | ⟨e, hplan⟩ <;> rw [hplan] <;>
        trivial
  | begun => exact hbegin _ _ _
  | through _ => exact hbegin _ _ _
  | recorded => exact hbegin _ _ _
  | _ => trivial

/-- A task comes to hold the hands by the lock, and to hold them no more by
the unlock. -/
theorem holds (h : part.Goes drag o r part') (hlock : o ≠ .inr .lock) (hunlock : o ≠ .inr .unlock) :
    (part'.Holds ↔ part.Holds) ∧ (part'.Acquired ↔ part.Acquired) := by
  have hheld : ∀ {part part' : Part}, part.Holds → part'.Holds →
      (part'.Holds ↔ part.Holds) ∧ (part'.Acquired ↔ part.Acquired) :=
    fun h h' => ⟨iff_of_true h' h, iff_of_true h'.acquired h.acquired⟩
  cases h with
  | session _ _ => exact ⟨Iff.rfl, Iff.rfl⟩
  | watches _ _ => exact ⟨Iff.rfl, Iff.rfl⟩
  | @sized action size =>
      rcases planned_cases drag action size with ⟨ops, hplan⟩ | ⟨e, hplan⟩ <;> rw [hplan] <;>
        exact ⟨Iff.rfl, Iff.rfl⟩
  | begun => exact absurd rfl hlock
  | through _ => exact hheld trivial (begin_holds _ _ _)
  | recorded => exact hheld trivial (begin_holds _ _ _)
  | released => exact absurd rfl hunlock
  | dropped => exact absurd rfl hunlock
  | _ => exact hheld trivial trivial

/-- Only a request that is planned takes the hands. -/
theorem queued {r : Unit} (h : part.Goes drag (.inr .lock) r part') :
    ∃ action ops, part = .queued action ops ∧ part' = .begin action [] ops := by
  cases h with
  | begun => exact ⟨_, _, rfl, rfl⟩

/-- Only a task that holds the hands lets go of them. -/
theorem unlocked {r : Unit} (h : part.Goes drag (.inr .unlock) r part') :
    part.Holds ∧ ¬ part'.Holds ∧ part'.Acquired := by
  cases h with
  | released => exact ⟨trivial, fun h => h, trivial⟩
  | dropped => exact ⟨trivial, fun h => h, trivial⟩

/-- Whoever sends an event is at an operation of its plan. -/
theorem accepts {event : Input} (h : part.Goes drag o r part') (hmute : part.Mute)
    (haccepts : accepts? ⟨i, o, r⟩ = some event) :
    ∃ action done op rest, op.input? = some event ∧ part = .acting action done op rest .push ∧
      part' = .acting action done op rest (.after false) := by
  cases h with
  | session hmay _ =>
      rw [accepts_session hmay hmute] at haccepts
      cases haccepts
  | watches _ hwatches =>
      rw [accepts_watches hwatches] at haccepts
      cases haccepts
  | @pushed action done op rest event' accepted hop =>
      cases accepted with
      | false => cases haccepts
      | true =>
          have heq : Input.ofMessage? event'.message = some event := haccepts
          rw [Input.ofMessage_message] at heq
          cases heq
          exact ⟨action, done, op, rest, hop, rfl, rfl⟩
  | _ => cases haccepts

end Part.Goes

end Goes

/-! ## The invariant -/

/-- One handler at a time holds the hands, and what the session has received
is what each has sent, in the order of their turns. -/
structure Turns (γ : Nat → Part) (t : List (Tasks.Entry ServeSig))
    (c : Tasks ServeSig Left Reply Desk Own) : Prop where
  held : c.shared.2.held = true ↔ ∃ i, (γ i).Holds
  one : ∀ i j, (γ i).Holds → (γ j).Holds → i = j
  last : ∀ i, (γ i).Holds → ∃ earlier, acquired t = earlier ++ [i]
  nodup : (acquired t).Nodup
  turns : ∀ i, i ∈ acquired t ↔ (γ i).Acquired
  sent : ∀ i, sentBy i t = (γ i).sent
  received : received t = (acquired t).flatMap (fun i => sentBy i t)
  mute : ∀ i, (γ i).Mute
  fits : ∀ i, (γ i).Fits

section

variable {γ : Nat → Part} {t : List (Tasks.Entry ServeSig)}
  {c : Tasks ServeSig Left Reply Desk Own} {i : Nat} {m : Choice} {o : ServeSig.Op}
  {k : ServeSig.Resp o → HandlerTask Reply} {own own' : Own} {r : ServeSig.Resp o} {s' : Desk}
  {part' : Part}

/-- Whoever sends an event holds the hands. -/
theorem holds_of_accepts {event : Input} (h : Turns γ t c)
    (hgoes : (γ i).Goes drag o r part') (haccepts : accepts? ⟨i, o, r⟩ = some event) :
    (γ i).Holds := by
  obtain ⟨_, _, _, _, _, hpart, _⟩ := hgoes.accepts (h.mute i) haccepts
  rw [hpart]
  trivial

theorem acquires_of_ne (h : o ≠ .inr .lock) : acquires? ⟨i, o, r⟩ = none := by
  unfold acquires?
  split
  · next heq =>
      cases heq
      exact absurd rfl h
  · rfl

/-- Only the lock and the unlock change whether the hands are held. -/
theorem held_of_ne (hlock : o ≠ .inr .lock) (hunlock : o ≠ .inr .unlock) {s : Desk}
    (hdoes : serveDoes o m s own = some (r, s', own')) : s'.2.held = s.2.held := by
  cases o with
  | inl o => rw [(serveDoes_inl hdoes).2]
  | inr o =>
      obtain ⟨hexec, _, _⟩ := serveDoes_inr hdoes
      cases o with
      | lock => exact absurd rfl hlock
      | unlock => exact absurd rfl hunlock
      | _ =>
          obtain ⟨_, heq⟩ := Prod.mk.inj (Option.some.inj hexec)
          rw [← heq]

/-- What is sent in a turn comes after what was sent before it. -/
theorem received_snoc {e : Tasks.Entry ServeSig}
    (hreceived : received t = (acquired t).flatMap (fun i => sentBy i t))
    (hnodup : (acquired t).Nodup) (hacquires : acquires? e = none)
    (hturn : ∀ event, accepts? e = some event → ∃ earlier, acquired t = earlier ++ [e.task]) :
    received (t ++ [e]) = (acquired (t ++ [e])).flatMap (fun i => sentBy i (t ++ [e])) := by
  rw [acquired_append, acquired_singleton, hacquires, Option.toList_none, List.append_nil,
    received_append, received_singleton, hreceived]
  cases haccepts : accepts? e with
  | none =>
      rw [Option.toList_none, List.append_nil]
      refine List.flatMap_congr (fun j _ => ?_)
      by_cases hj : e.task = j
      · subst hj
        rw [sentBy_snoc_self, haccepts, Option.toList_none, List.append_nil]
      · rw [sentBy_snoc_of_ne t e hj]
  | some event =>
      obtain ⟨earlier, hearlier⟩ := hturn event haccepts
      rw [hearlier] at hnodup ⊢
      have hnew : e.task ∉ earlier := by
        intro hmem
        exact (List.nodup_append.mp hnodup).2.2 _ hmem _ (List.mem_singleton.mpr rfl) rfl
      have hothers : earlier.flatMap (fun i => sentBy i (t ++ [e])) =
          earlier.flatMap (fun i => sentBy i t) := by
        refine List.flatMap_congr (fun j hj => sentBy_snoc_of_ne t e ?_)
        intro heq
        exact hnew (heq ▸ hj)
      simp only [List.flatMap_append, List.flatMap_singleton, hothers, sentBy_snoc_self, haccepts,
        List.append_assoc]

theorem turns_step (h : Turns γ t c) (hgoes : (γ i).Goes drag o r part')
    (hdoes : serveDoes o m c.shared own = some (r, s', own')) :
    Turns (Function.update γ i part') (t ++ [⟨i, o, r⟩]) ⟨s', c.tasks.set i (k r, own')⟩ := by
  have hself : Function.update γ i part' i = part' := Function.update_self _ _ _
  have hother : ∀ {j}, j ≠ i → Function.update γ i part' j = γ j :=
    fun hji => Function.update_of_ne hji _ _
  have hsent : ∀ j, sentBy j (t ++ [⟨i, o, r⟩]) =
      (Function.update γ i part' j).sent := by
    intro j
    by_cases hji : j = i
    · subst hji
      rw [hself, hgoes.sent (h.mute j) (h.fits j), ← h.sent j]
      exact sentBy_snoc_self t ⟨j, o, r⟩
    · rw [hother hji, ← h.sent j]
      exact sentBy_snoc_of_ne t _ (Ne.symm hji)
  have hmute : ∀ j, (Function.update γ i part' j).Mute := by
    intro j
    by_cases hji : j = i
    · subst hji
      rw [hself]
      exact hgoes.mute (h.mute j)
    · rw [hother hji]
      exact h.mute j
  have hfits : ∀ j, (Function.update γ i part' j).Fits := by
    intro j
    by_cases hji : j = i
    · subst hji
      rw [hself]
      exact hgoes.fits (h.fits j)
    · rw [hother hji]
      exact h.fits j
  by_cases hlock : o = .inr .lock
  · subst hlock
    obtain ⟨hexec, _, _⟩ := serveDoes_inr hdoes
    obtain ⟨action, ops, hqueued, hnext⟩ := hgoes.queued
    have hfree : c.shared.2.held = false := by
      cases hheld : c.shared.2.held with
      | false => rfl
      | true =>
          rw [Hands.exec, if_pos hheld] at hexec
          cases hexec
    rw [Hands.exec, if_neg (by simp [hfree])] at hexec
    obtain ⟨_, hhands⟩ := Prod.mk.inj (Option.some.inj hexec)
    have hnone : ∀ j, ¬ (γ j).Holds := by
      intro j hj
      rw [h.held.mpr ⟨j, hj⟩] at hfree
      cases hfree
    have hbegin : Function.update γ i part' i =
        Part.begin action [] ops := by
      rw [hself, hnext]
    have hholds : (Function.update γ i part' i).Holds := by
      rw [hbegin]
      exact begin_holds _ _ _
    have honly : ∀ j, (Function.update γ i part' j).Holds → j = i := by
      intro j hj
      by_contra hji
      rw [hother hji] at hj
      exact hnone j hj
    have hsnoc : acquired (t ++ [⟨i, .inr .lock, r⟩]) = acquired t ++ [i] := by
      rw [acquired_append]
      rfl
    have hyet : i ∉ acquired t := by
      rw [h.turns, hqueued]
      exact fun h => h
    refine ⟨?_, fun j j' hj hj' => (honly j hj).trans (honly j' hj').symm, fun j hj => ?_, ?_,
      fun j => ?_, hsent, ?_, hmute, hfits⟩
    · rw [← hhands]
      exact iff_of_true rfl ⟨i, hholds⟩
    · rw [honly j hj]
      exact ⟨acquired t, hsnoc⟩
    · rw [hsnoc]
      exact List.nodup_append.mpr ⟨h.nodup, by simp, fun a ha b hb => by
        rw [List.mem_singleton.mp hb]
        exact fun heq => hyet (heq ▸ ha)⟩
    · rw [hsnoc, List.mem_append, List.mem_singleton]
      by_cases hji : j = i
      · subst hji
        exact iff_of_true (.inr rfl) hholds.acquired
      · rw [hother hji, ← h.turns j]
        exact ⟨fun hor => hor.resolve_right hji, .inl⟩
    · have hnothing : sentBy i (t ++ [⟨i, .inr .lock, r⟩]) = [] := by
        rw [hsent, hbegin, begin_sent]
        rfl
      have hearlier : (acquired t).flatMap (fun j => sentBy j (t ++ [⟨i, .inr .lock, r⟩])) =
          (acquired t).flatMap (fun j => sentBy j t) := by
        refine List.flatMap_congr (fun j hj => sentBy_snoc_of_ne t _ ?_)
        intro (heq : i = j)
        exact hyet (heq ▸ hj)
      rw [hsnoc, List.flatMap_append, List.flatMap_singleton, hnothing, List.append_nil, hearlier,
        received_append, ← h.received]
      exact List.append_nil _
  · have hsnoc : acquired (t ++ [⟨i, o, r⟩]) = acquired t := by
      rw [acquired_append, acquired_singleton, acquires_of_ne hlock]
      exact List.append_nil _
    have hreceived := received_snoc (e := ⟨i, o, r⟩) h.received h.nodup (acquires_of_ne hlock)
      (fun event haccepts => h.last i (holds_of_accepts h hgoes haccepts))
    by_cases hunlock : o = .inr .unlock
    · subst hunlock
      obtain ⟨hexec, _, _⟩ := serveDoes_inr hdoes
      obtain ⟨_, hhands⟩ := Prod.mk.inj (Option.some.inj hexec)
      obtain ⟨hholds, hgone, hacquired⟩ := hgoes.unlocked
      have hnone : ∀ j, ¬ (Function.update γ i part' j).Holds := by
        intro j hj
        by_cases hji : j = i
        · subst hji
          rw [hself] at hj
          exact hgone hj
        · rw [hother hji] at hj
          exact hji (h.one j i hj hholds)
      refine ⟨?_, fun j j' hj => (hnone j hj).elim, fun j hj => (hnone j hj).elim, ?_,
        fun j => ?_, hsent, hreceived, hmute, hfits⟩
      · rw [← hhands]
        exact iff_of_false (fun heq => by cases heq) (fun ⟨j, hj⟩ => hnone j hj)
      · rw [hsnoc]
        exact h.nodup
      · rw [hsnoc, h.turns]
        by_cases hji : j = i
        · subst hji
          rw [hself]
          exact iff_of_true hholds.acquired hacquired
        · rw [hother hji]
    · have hkeep : ∀ j, ((Function.update γ i part' j).Holds ↔ (γ j).Holds) ∧
          ((Function.update γ i part' j).Acquired ↔ (γ j).Acquired) := by
        intro j
        by_cases hji : j = i
        · subst hji
          rw [hself]
          exact hgoes.holds hlock hunlock
        · rw [hother hji]
          exact ⟨Iff.rfl, Iff.rfl⟩
      refine ⟨?_, fun j j' hj hj' => h.one j j' ((hkeep j).1.mp hj) ((hkeep j').1.mp hj'),
        fun j hj => ?_, ?_, fun j => ?_, hsent, hreceived, hmute, hfits⟩
      · rw [held_of_ne hlock hunlock hdoes, h.held]
        exact exists_congr (fun j => (hkeep j).1.symm)
      · rw [hsnoc]
        exact h.last j ((hkeep j).1.mp hj)
      · rw [hsnoc]
        exact h.nodup
      · rw [hsnoc, h.turns j]
        exact (hkeep j).2.symm

end

/-- What a job has done at the start. -/
theorem job_part (job : Job) :
    ¬ job.part.Holds ∧ ¬ job.part.Acquired ∧ job.part.sent = [] ∧ job.part.Mute ∧
      job.part.Fits := by
  cases job with
  | clipboard text => exact ⟨fun h => h, fun h => h, rfl, rfl, trivial⟩
  | _ => exact ⟨fun h => h, fun h => h, rfl, trivial, trivial⟩

theorem turns_start {z : Decompress} (width height : UInt16) (name : String) (continuous : Bool)
    (n m : Nat) (d : Decoders z) (time : Duration) (config : HandlerConfig) (jobs : List Job) :
    Turns (serviceParts continuous jobs) []
      (service width height name continuous n m d time config jobs) := by
  have hstart : ∀ j, ¬ (serviceParts continuous jobs j).Holds ∧
      ¬ (serviceParts continuous jobs j).Acquired ∧ (serviceParts continuous jobs j).sent = [] ∧
      (serviceParts continuous jobs j).Mute ∧ (serviceParts continuous jobs j).Fits := by
    intro j
    rcases j with _ | _ | _ | j
    · exact ⟨fun h => h, fun h => h, rfl, trivial, trivial⟩
    · exact ⟨fun h => h, fun h => h, rfl, trivial, trivial⟩
    · exact ⟨fun h => h, fun h => h, rfl, trivial, trivial⟩
    · simp only [serviceParts]
      cases jobs[j]? with
      | none => exact ⟨fun h => h, fun h => h, rfl, trivial, trivial⟩
      | some job => exact job_part job
  refine ⟨iff_of_false (fun h => by cases h) (not_exists.mpr fun j => (hstart j).1),
    fun j j' hj => ((hstart j).1 hj).elim, fun j hj => ((hstart j).1 hj).elim, List.nodup_nil,
    fun j => iff_of_false (by simp [acquired]) (hstart j).2.1, fun j => (hstart j).2.2.1.symm, rfl,
    fun j => (hstart j).2.2.2.1, fun j => (hstart j).2.2.2.2⟩

/-! ## Runs of a server -/

section

variable {z : Decompress} {width height : UInt16} {name : String} {continuous : Bool} {n m : Nat}
  {d : Decoders z} {time : Duration} {config : HandlerConfig} {jobs : List Job}
  {within : List (Tasks.Entry ServeSig) → Tasks ServeSig Left Reply Desk Own → Nat → Choice → Prop}
  {t : List (Tasks.Entry ServeSig)} {c : Tasks ServeSig Left Reply Desk Own}
  {J : (Nat → Part) → List (Tasks.Entry ServeSig) → Tasks ServeSig Left Reply Desk Own → Prop}

/-- What every operation of a part keeps holds after every run of a server. -/
theorem service_parted
    (h : Tasks.Runs serveDoes within (service width height name continuous n m d time config jobs)
      t c)
    (hstart : J (serviceParts continuous jobs) []
      (service width height name continuous n m d time config jobs))
    (hstep : ∀ t (c : Tasks ServeSig Left Reply Desk Own) γ i m o k own r s' own',
      within t c i m → J γ t c → c.tasks[i]? = some (.step o k, own) → (γ i).may o →
      serveDoes o m c.shared own = some (r, s', own') →
      J (Function.update γ i ((γ i).next continuous config.drag o r)) (t ++ [⟨i, o, r⟩])
        ⟨s', c.tasks.set i (k r, own')⟩) :
    ∃ γ, Tasks.Roles (parts continuous config.drag) Part.Ended γ c ∧ J γ t c := by
  refine h.joint (service_parts width height name continuous n m d time config jobs) hstart ?_
  intro t c γ i m o k own r s' own' hwithin _ hj htask hmay hdoes
  refine ⟨?_, hstep t c γ i m o k own r s' own' hwithin hj htask hmay hdoes⟩
  show (γ i).answers o r
  cases hpart : γ i with
  | session role =>
      rw [hpart] at hmay
      obtain ⟨o', rfl, _⟩ := hmay
      exact sessionDoes_answered (serveDoes_session hdoes).1
  | _ => trivial

/-- What every step of a server keeps holds after every run of it. -/
theorem service_joint
    (h : Tasks.Runs serveDoes within (service width height name continuous n m d time config jobs)
      t c)
    (hstart : J (serviceParts continuous jobs) []
      (service width height name continuous n m d time config jobs))
    (hstep : ∀ t (c : Tasks ServeSig Left Reply Desk Own) γ i m o k own r s' own' part',
      within t c i m → J γ t c → c.tasks[i]? = some (.step o k, own) →
      (γ i).Goes config.drag o r part' → serveDoes o m c.shared own = some (r, s', own') →
      J (Function.update γ i part') (t ++ [⟨i, o, r⟩]) ⟨s', c.tasks.set i (k r, own')⟩) :
    ∃ γ, Tasks.Roles (parts continuous config.drag) Part.Ended γ c ∧ J γ t c := by
  refine service_parted h hstart ?_
  intro t c γ i m o k own r s' own' hwithin hj htask hmay hdoes
  exact hstep t c γ i m o k own r s' own' _ hwithin hj htask (Part.goes hmay r) hdoes

end

end Bolide.Server
