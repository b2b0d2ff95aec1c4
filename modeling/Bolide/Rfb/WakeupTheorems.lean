/-
Bolide.Rfb.WakeupTheorems — a refresh that waits is woken.

What a refresh waits for is a state (an update past its floor has painted,
or the session is dead), and what it waits on is a channel that keeps its
last 256 events. The state is looked at only when a Painted event is
received. So the wait ends as it should as long as the channel still holds
an event that wakes: a Painted when an update past the floor has painted, a
Disconnected always.

`Attended` is the condition on a step under which no send pushes the last such
event out of the full receiver of a refresh that waits, and `refresh_woken`
says that in a run of such steps no refresh is parked once it has been
summoned. `not_refresh_woken_bells` is a run of 256 bells.
-/
import Bolide.Rfb.StaleTheorems
import Bolide.Rfb.DeathTheorems

namespace Bolide.Rfb

open Lib Prog

/-! ## What a refresh waits for -/

/-- Update `u` has painted and its Painted event has been sent. -/
def Announced (t : List (Tasks.Entry SessionSig)) (u : Nat) : Prop :=
  ∃ before stored after generation sent, t = before ++ ⟨0, .storeLastPainted u, stored⟩ :: after ∧
    ⟨0, .emit (.painted generation), sent⟩ ∈ after

/-- Death has been announced since task `j` subscribed. -/
def DeadSince (t : List (Tasks.Entry SessionSig)) (j : Nat) : Prop :=
  ∃ before subscribed after i reason sent, t = before ++ ⟨j, .subscribe, subscribed⟩ :: after ∧
    ⟨i, .emit (.disconnected reason), sent⟩ ∈ after

/-- The events that end a wait: `passed` says that the last painted update is
past the floor. -/
def Wakes (passed : Prop) : ServerEvent → Prop
  | .painted _ => passed
  | .disconnected _ => True
  | _ => False

/-- The receiver still holds an event that ends the wait. -/
def Has (passed : Prop) (own : Own) (i : Inner) : Prop := ∃ e ∈ own.unread i, Wakes passed e

/-- Sending `e` pushes the last event that ends the wait out of a full receiver. -/
def Loses (passed : Prop) (own : Own) (i : Inner) (e : ServerEvent) : Prop :=
  (own.unread i).length = eventCapacity ∧ Has passed own i ∧
    ∀ x ∈ (own.unread i).tail ++ [e], ¬ Wakes passed x

/-- A refresh with this floor has yet to be told to return. -/
def Waits (i : Inner) (floor : Nat) : Task Returned → Prop
  | .step .framebuffer _ => False
  | .step .loadLastPainted _ => i.lastPaintedUpdate ≤ floor
  | .step .loadConnected _ => i.connected = true
  | .step _ _ => True
  | _ => False

/-- The condition on a step: it sends no event that makes a refresh that
waits lose its wakeup. -/
structure Attended (t : List (Tasks.Entry SessionSig)) (c : Tasks SessionSig Stop Returned Inner Own)
    (i : Nat) (_m : Choice) : Prop where
  sends : ∀ event k own, c.tasks[i]? = some (.step (.emit event) k, own) →
    ∀ j p own floor, c.tasks[j]? = some (p, own) → ⟨j, .loadUpdatesBegun, floor⟩ ∈ t →
      Waits c.shared floor p → ¬ Loses (floor < c.shared.lastPaintedUpdate) own c.shared event

/-! ## What an operation does to a receiver -/

theorem Wakes.mono {passed passed' : Prop} (h : passed → passed') {e : ServerEvent}
    (he : Wakes passed e) : Wakes passed' e := by
  cases e with
  | painted generation => exact h he
  | disconnected reason => trivial
  | _ => exact he.elim

theorem Has.mono {passed passed' : Prop} (h : passed → passed') {own : Own} {i : Inner}
    (hhas : Has passed own i) : Has passed' own i := by
  obtain ⟨e, he, hwakes⟩ := hhas
  exact ⟨e, he, hwakes.mono h⟩

/-- What a subscribed task holds after an event is sent. -/
theorem unread_emit {own : Own} {i : Inner} (hsub : own.Subscribed i) (e : ServerEvent)
    (r : Op.Resp (.emit e)) :
    own.unread (Op.after (.emit e) r i) =
      (if (own.unread i).length = eventCapacity then (own.unread i).tail else own.unread i)
        ++ [e] := by
  obtain ⟨next, hnext, hle⟩ := hsub
  simp only [Own.unread, hnext]
  exact Broadcast.unread_send (by decide) hle

/-- An operation that sends nothing changes no receiver. -/
theorem unread_after {o : Op} (h : ∀ e, o ≠ .emit e) (own : Own) (r : o.Resp) (i : Inner) :
    own.unread (o.after r i) = own.unread i := by
  have hevents : (o.after r i).events = i.events := by
    rw [after_events]
    cases o with
    | emit e => exact absurd rfl (h e)
    | _ => exact List.append_nil _
  simp only [Own.unread, hevents]

/-- What is sent is held. -/
theorem has_sent {passed : Prop} {own : Own} {i : Inner} (hsub : own.Subscribed i)
    {e : ServerEvent} (hwakes : Wakes passed e) (r : Op.Resp (.emit e)) :
    Has passed own (Op.after (.emit e) r i) := by
  refine ⟨e, ?_, hwakes⟩
  rw [unread_emit hsub]
  exact List.mem_append_right _ List.mem_cons_self

/-- A receiver that loses nothing still holds what ends the wait. -/
theorem has_after {passed : Prop} {own : Own} {i : Inner} {o : Op} (hsub : own.Subscribed i)
    (hhas : Has passed own i) (hkeeps : ∀ e, o = .emit e → ¬ Loses passed own i e) (r : o.Resp) :
    Has passed own (o.after r i) := by
  by_cases hemit : ∃ e, o = .emit e
  · obtain ⟨e, rfl⟩ := hemit
    by_cases hfull : (own.unread i).length = eventCapacity
    · by_contra hnone
      refine hkeeps e rfl ⟨hfull, hhas, fun x hx hwakes => hnone ⟨x, ?_, hwakes⟩⟩
      rw [unread_emit hsub, if_pos hfull]
      exact hx
    · obtain ⟨x, hx, hwakes⟩ := hhas
      refine ⟨x, ?_, hwakes⟩
      rw [unread_emit hsub, if_neg hfull]
      exact List.mem_append_left _ hx
  · obtain ⟨x, hx, hwakes⟩ := hhas
    refine ⟨x, ?_, hwakes⟩
    rw [unread_after (fun e heq => hemit ⟨e, heq⟩)]
    exact hx

/-! ## The invariant -/

/-- The update the reader is at. -/
def Reading.update? : Reading → Option Nat
  | begun u _ _ => some u
  | resizing u _ => some u
  | flagged u _ => some u
  | asking _ u _ => some u
  | announce u => some u
  | numbered u _ => some u
  | _ => none

/-- A refresh loads its floor once. -/
def Refreshing.Loaded (t : List (Tasks.Entry SessionSig)) (j : Nat) : Refreshing → Prop
  | start => ∀ f, ⟨j, .loadUpdatesBegun, f⟩ ∉ t
  | subscribed => ∀ f, ⟨j, .loadUpdatesBegun, f⟩ ∉ t
  | asking _ floor => ∀ f, ⟨j, .loadUpdatesBegun, f⟩ ∈ t → f = floor
  | waiting floor => ∀ f, ⟨j, .loadUpdatesBegun, f⟩ ∈ t → f = floor
  | told floor => ∀ f, ⟨j, .loadUpdatesBegun, f⟩ ∈ t → f = floor
  | _ => True

/-- The wait should end. -/
def Summoned (t : List (Tasks.Entry SessionSig)) (i : Inner) (floor : Nat) : Prop :=
  (∃ u, floor < u ∧ Announced t u) ∨ i.deaths ≠ 0

/-- What the role of a refresh says of its receiver. -/
def Refreshing.Hears (t : List (Tasks.Entry SessionSig)) (i : Inner) (own : Own) :
    Refreshing → Prop
  | subscribed => own.Subscribed i
  | asking s floor => own.Subscribed i ∧ ((s = .check → i.connected = true) →
      Summoned t i floor → Has (floor < i.lastPaintedUpdate) own i)
  | waiting floor => own.Subscribed i ∧
      (Summoned t i floor → Has (floor < i.lastPaintedUpdate) own i)
  | told floor => own.Subscribed i ∧
      (i.lastPaintedUpdate ≤ floor → i.deaths ≠ 0 → Has False own i)
  | _ => True

/-- The invariant. Task 0 is the reader. -/
structure Awake (γ : Nat → Role) (t : List (Tasks.Entry SessionSig))
    (c : Tasks SessionSig Stop Returned Inner Own) : Prop where
  counted : Counted γ t c
  death : Death γ c
  events : c.shared.events = t.flatMap (fun e => e.op.emits)
  current : ∀ r, γ 0 = .reader r → ∀ u, r.update? = some u → u = c.shared.updatesBegun
  stores : ∀ u a, ⟨0, .storeLastPainted u, a⟩ ∈ t → u ≤ c.shared.lastPaintedUpdate
  loads : ∀ j incremental r, γ j = .refresh incremental r → r.Loaded t j
  hears : ∀ j incremental r o k own, γ j = .refresh incremental r →
    c.tasks[j]? = some (.step o k, own) → r.Hears t c.shared own

/-! ## What an operation does to what has happened -/

/-- An update is announced by the reader's Painted event, once it is stored. -/
theorem announced_snoc {t : List (Tasks.Entry SessionSig)} {i u : Nat} {o : Op} {r : o.Resp}
    (h : Announced (t ++ [⟨i, o, r⟩]) u) :
    Announced t u ∨
      (∃ generation, o = .emit (.painted generation)) ∧ ∃ a, ⟨0, .storeLastPainted u, a⟩ ∈ t := by
  obtain ⟨before, stored, after, generation, sent, heq, hmem⟩ := h
  rcases Tasks.snoc_split heq with ⟨rfl, -, -⟩ | ⟨rest, rfl, ht⟩
  · cases hmem
  · rw [List.mem_append, List.mem_singleton] at hmem
    rcases hmem with hmem | hlast
    · exact .inl ⟨before, stored, rest, generation, sent, ht, hmem⟩
    · cases hlast
      refine .inr ⟨⟨generation, rfl⟩, stored, ?_⟩
      rw [ht]
      simp

/-- A refresh is summoned by the Painted event of an update past its floor, or
by a Disconnected. -/
theorem summoned_snoc {t : List (Tasks.Entry SessionSig)} {i floor : Nat} {o : Op} {r : o.Resp}
    {s : Inner} (hstores : ∀ u a, ⟨0, .storeLastPainted u, a⟩ ∈ t → u ≤ s.lastPaintedUpdate)
    (h : Summoned (t ++ [⟨i, o, r⟩]) (o.after r s) floor) :
    Summoned t s floor ∨
      ∃ e, o = .emit e ∧ Wakes (floor < s.lastPaintedUpdate) e := by
  rcases h with ⟨u, hlt, hu⟩ | hdead
  · rcases announced_snoc hu with hu | ⟨⟨generation, rfl⟩, a, hmem⟩
    · exact .inl (.inl ⟨u, hlt, hu⟩)
    · have hle := hstores u a hmem
      exact .inr ⟨_, rfl, by
        show floor < s.lastPaintedUpdate
        omega⟩
  · by_cases hsaid : ∃ reason, o = .emit (.disconnected reason)
    · obtain ⟨reason, rfl⟩ := hsaid
      exact .inr ⟨_, rfl, trivial⟩
    · rw [deaths_after (fun reason heq => hsaid ⟨reason, heq⟩)] at hdead
      exact .inl (.inr hdead)

/-- An operation that sends nothing summons nobody. -/
theorem summoned_of_quiet {t : List (Tasks.Entry SessionSig)} {i floor : Nat} {o : Op}
    {r : o.Resp} {s : Inner} (hquiet : ∀ e, o ≠ .emit e)
    (hstores : ∀ u a, ⟨0, .storeLastPainted u, a⟩ ∈ t → u ≤ s.lastPaintedUpdate)
    (h : Summoned (t ++ [⟨i, o, r⟩]) (o.after r s) floor) : Summoned t s floor := by
  rcases summoned_snoc hstores h with h | ⟨e, heq, _⟩
  · exact h
  · exact absurd heq (hquiet e)

/-- A refresh with an update past its floor has the last one past it. -/
theorem passed_of_announced {t : List (Tasks.Entry SessionSig)} {s : Inner} {floor u : Nat}
    (hstores : ∀ u a, ⟨0, .storeLastPainted u, a⟩ ∈ t → u ≤ s.lastPaintedUpdate)
    (hlt : floor < u) (h : Announced t u) : floor < s.lastPaintedUpdate := by
  obtain ⟨before, stored, after, generation, sent, rfl, _⟩ := h
  have := hstores u stored (by simp)
  omega

theorem Counted.last_le {γ : Nat → Role} {t : List (Tasks.Entry SessionSig)}
    {c : Tasks SessionSig Stop Returned Inner Own} (h : Counted γ t c) :
    c.shared.lastPaintedUpdate ≤ c.shared.updatesBegun := by
  rw [h.begun]
  rcases h.last with hzero | ⟨k, hk, hget⟩
  · omega
  · have := (List.getElem?_eq_some_iff.mp hget).1
    omega

/-! ## One operation, for the other tasks -/

section

variable {continuous : Bool} {γ : Nat → Role} {t : List (Tasks.Entry SessionSig)}
  {c : Tasks SessionSig Stop Returned Inner Own} {i : Nat} {m : Choice} {o : Op}
  {k : o.Resp → Task Returned} {own own' : Own} {r : o.Resp} {s' : Inner}

/-- The reader stores the number of the update it is at. -/
theorem Reading.update_of_stores {role : Reading} {n : Nat} (hmay : role.may (.storeLastPainted n)) :
    role.update? = some n := by
  cases role with
  | numbered update generation =>
      cases hmay
      rfl
  | asking s update painted =>
      cases s with
      | sent accepted => exact hmay.elim
      | _ => cases hmay
  | dying d =>
      cases d with
      | announce =>
          obtain ⟨reason, hmay⟩ := hmay
          cases hmay
      | done => exact hmay.elim
      | _ => cases hmay
  | plain => exact hmay.elim
  | begun update painted resized => exact hmay.elim
  | flagged update painted =>
      obtain ⟨w, h, hmay⟩ := hmay
      cases hmay
  | _ => cases hmay

/-- What is stored is the number of the last update that has begun. -/
theorem stores_current (h : Awake γ t c) {n : Nat} (hmay : (γ i).may (.storeLastPainted n)) :
    i = 0 ∧ n = c.shared.updatesBegun := by
  cases hi : γ i with
  | reader role =>
      rw [hi] at hmay
      have h0 := h.counted.alone i role hi
      subst h0
      exact ⟨rfl, h.current role hi n (Reading.update_of_stores hmay)⟩
  | _ => exact absurd rfl ((Role.quiet hmay (fun r hr => by rw [hi] at hr; cases hr)).2 n)

/-- The last painted update only grows. -/
theorem last_le_after (h : Awake γ t c) (hmay : (γ i).may o) (r : o.Resp) :
    c.shared.lastPaintedUpdate ≤ (o.after r c.shared).lastPaintedUpdate := by
  by_cases hs : ∃ n, o = .storeLastPainted n
  · obtain ⟨n, rfl⟩ := hs
    have hn := (stores_current h hmay).2
    show c.shared.lastPaintedUpdate ≤ n
    rw [hn]
    exact h.counted.last_le
  · rw [after_lastPainted (fun n hn => hs ⟨n, hn⟩)]

/-- A floor that has been loaded is on record. -/
theorem Floored.mem {j floor : Nat} (h : Floored t j floor) :
    ⟨j, .loadUpdatesBegun, floor⟩ ∈ t := by
  obtain ⟨before, between, rfl, _⟩ := h
  simp

/-- A summoned refresh that waits is still summoned, and still holds what ends
its wait. -/
theorem has_others (hheard : Attended t c i m) (h : Awake γ t c)
    (htask : c.tasks[i]? = some (.step o k, own)) (hmay : (γ i).may o) {j floor : Nat}
    {p : Task Returned} {own₀ : Own} (hget : c.tasks[j]? = some (p, own₀))
    (hsub : own₀.Subscribed c.shared) (hfloor : Floored t j floor) (hwaits : Waits c.shared floor p)
    (hhas : Summoned t c.shared floor → Has (floor < c.shared.lastPaintedUpdate) own₀ c.shared)
    (hsummoned : Summoned (t ++ [⟨i, o, r⟩]) (o.after r c.shared) floor) :
    Has (floor < (o.after r c.shared).lastPaintedUpdate) own₀ (o.after r c.shared) := by
  have hle := last_le_after h hmay r
  refine Has.mono (fun (hlt : floor < c.shared.lastPaintedUpdate) => hlt.trans_le hle) ?_
  rcases summoned_snoc h.stores hsummoned with hbefore | ⟨e, rfl, hwakes⟩
  · refine has_after hsub (hhas hbefore) (fun e heq => ?_) r
    subst heq
    exact hheard.sends e k own htask j p own₀ floor hget hfloor.mem hwaits
  · exact has_sent hsub hwakes r

theorem Refreshing.loaded_snoc {role : Refreshing} {j : Nat} (h : role.Loaded t j) (hji : j ≠ i)
    (o : Op) (r : o.Resp) : role.Loaded (t ++ [⟨i, o, r⟩]) j := by
  have hmem : ∀ f, (⟨j, .loadUpdatesBegun, f⟩ : Tasks.Entry SessionSig) ∈ t ++ [⟨i, o, r⟩] →
      ⟨j, .loadUpdatesBegun, f⟩ ∈ t := by
    intro f hf
    rw [List.mem_append, List.mem_singleton] at hf
    rcases hf with hf | hf
    · exact hf
    · exact absurd (Tasks.Entry.mk.inj hf).1 hji
  cases role with
  | start => exact fun f hf => h f (hmem f hf)
  | subscribed => exact fun f hf => h f (hmem f hf)
  | asking s floor => exact fun f hf => h f (hmem f hf)
  | waiting floor => exact fun f hf => h f (hmem f hf)
  | told floor => exact fun f hf => h f (hmem f hf)
  | _ => trivial

/-- Another task's operation keeps what a refresh holds. -/
theorem hears_others (hheard : Attended t c i m) (h : Awake γ t c)
    (htask : c.tasks[i]? = some (.step o k, own)) (hmay : (γ i).may o) {j : Nat}
    {incremental : Bool} {role : Refreshing} {o₀ : Op} {k₀ : o₀.Resp → Task Returned} {own₀ : Own}
    (hrole : γ j = .refresh incremental role) (hmay₀ : role.may incremental o₀)
    (hget : c.tasks[j]? = some (.step o₀ k₀, own₀)) (hears : role.Hears t c.shared own₀) :
    role.Hears (t ++ [⟨i, o, r⟩]) (o.after r c.shared) own₀ := by
  have hcounts := h.counted.asks j incremental role hrole
  cases role with
  | subscribed => exact Own.Subscribed.after hears
  | asking s floor =>
      obtain ⟨hsub, hhas⟩ := hears
      refine ⟨hsub.after, fun hcheck hsummoned => ?_⟩
      have hconn : s = .check → c.shared.connected = true := by
        intro hs
        have halive := hcheck hs
        by_cases hswap : o = .swapConnected
        · subst hswap
          cases halive
        · rw [after_connected hswap] at halive
          exact halive
      have hwaits : Waits c.shared floor (.step o₀ k₀) := by
        cases s with
        | check =>
            cases (hmay₀ : o₀ = .loadConnected)
            exact hconn rfl
        | count =>
            cases (hmay₀ : o₀ = .addOutstanding)
            trivial
        | push =>
            cases (hmay₀ : o₀ = .push (.request incremental))
            trivial
        | sent accepted => exact hmay₀.elim
      exact has_others hheard h htask hmay hget hsub hcounts hwaits (hhas hconn) hsummoned
  | waiting floor =>
      obtain ⟨hsub, hhas⟩ := hears
      refine ⟨hsub.after, fun hsummoned => ?_⟩
      cases (hmay₀ : o₀ = .recv)
      exact has_others hheard h htask hmay hget hsub hcounts trivial hhas hsummoned
  | told floor =>
      obtain ⟨hsub, hhas⟩ := hears
      refine ⟨hsub.after, fun hle hdead => ?_⟩
      have hlast := last_le_after h hmay r
      have hle₀ : c.shared.lastPaintedUpdate ≤ floor := by omega
      cases (hmay₀ : o₀ = .loadLastPainted)
      have hpassed : ¬ floor < c.shared.lastPaintedUpdate := by omega
      have hpassed' : ¬ floor < (o.after r c.shared).lastPaintedUpdate := by omega
      refine Has.mono hpassed' ?_
      refine has_others hheard h htask hmay hget hsub hcounts hle₀ (fun hsum => ?_) (.inr hdead)
      rcases hsum with ⟨u, hlt, hu⟩ | hdead₀
      · exact absurd (passed_of_announced h.stores hlt hu) hpassed
      · exact (hhas hle₀ hdead₀).mono False.elim
  | _ => trivial

/-! ## One operation, for the refresh itself -/

theorem Refreshing.loaded_next {role : Refreshing} {j : Nat} {incremental : Bool}
    (h : role.Loaded t j) (hmay : role.may incremental o) :
    (role.next incremental o r).Loaded (t ++ [⟨j, o, r⟩]) j := by
  have hmem : ∀ f, (⟨j, .loadUpdatesBegun, f⟩ : Tasks.Entry SessionSig) ∈ t ++ [⟨j, o, r⟩] →
      o ≠ .loadUpdatesBegun → ⟨j, .loadUpdatesBegun, f⟩ ∈ t := by
    intro f hf hne
    rw [List.mem_append, List.mem_singleton] at hf
    rcases hf with hf | hf
    · exact hf
    · exact absurd (Tasks.Entry.mk.inj hf).2.1.symm hne
  cases role with
  | start =>
      cases (hmay : o = .subscribe)
      exact fun f hf => h f (hmem f hf (by simp))
  | subscribed =>
      cases (hmay : o = .loadUpdatesBegun)
      intro f hf
      rw [List.mem_append, List.mem_singleton] at hf
      rcases hf with hf | hf
      · exact absurd hf (h f)
      · cases hf
        rfl
  | asking s floor =>
      have hkeep : ∀ f, (⟨j, .loadUpdatesBegun, f⟩ : Tasks.Entry SessionSig) ∈ t ++ [⟨j, o, r⟩] →
          f = floor := by
        refine fun f hf => h f (hmem f hf (fun heq => ?_))
        subst heq
        cases s with
        | sent accepted => exact hmay
        | _ => cases hmay
      show (sending floor (s.next (.request incremental) o r)).Loaded _ _
      cases s.next (.request incremental) o r with
      | sent accepted =>
          cases accepted with
          | false => trivial
          | true => exact hkeep
      | _ => exact hkeep
  | waiting floor =>
      cases (hmay : o = .recv)
      have hkeep : ∀ f, (⟨j, .loadUpdatesBegun, f⟩ : Tasks.Entry SessionSig) ∈ t ++ [⟨j, .recv, r⟩] →
          f = floor := fun f hf => h f (hmem f hf (by simp))
      match r, hkeep with
      | .elapsed, _ => trivial
      | .closed, _ => trivial
      | .received (.lagged _), hkeep => exact hkeep
      | .received (.event (.disconnected _)), _ => trivial
      | .received (.event (.resized _ _)), hkeep => exact hkeep
      | .received (.event (.cutText _)), hkeep => exact hkeep
      | .received (.event .bell), hkeep => exact hkeep
      | .received (.event (.painted _)), hkeep => exact hkeep
  | told floor =>
      cases (hmay : o = .loadLastPainted)
      show (judged floor r).Loaded _ _
      unfold judged
      split
      · trivial
      · exact fun f hf => h f (hmem f hf (by simp))
  | ready floor =>
      cases (hmay : o = .framebuffer)
      trivial
  | copied floor frame => exact hmay.elim
  | failed => exact hmay.elim

/-- A send keeps what the refresh holds, and goes on only with a session that
was connected when it looked. -/
theorem hears_asking (h : Awake γ t c) {j floor : Nat} {incremental : Bool} {s : Sending}
    {own₀ : Own} (hears : (Refreshing.asking s floor).Hears t c.shared own₀)
    (hmay : s.may (.request incremental) o)
    (hdoes : sessionDoes o m c.shared own₀ = some (r, s', own')) :
    (Refreshing.sending floor (s.next (.request incremental) o r)).Hears (t ++ [⟨j, o, r⟩]) s' own' := by
  obtain ⟨hsub, hhas⟩ := hears
  have hafter := sessionDoes_after hdoes
  have hquiet : ∀ e, o ≠ .emit e := by
    intro e heq
    subst heq
    cases s with
    | sent accepted => exact hmay
    | _ => cases hmay
  have hlast : s'.lastPaintedUpdate = c.shared.lastPaintedUpdate := by
    rw [hafter, after_lastPainted (fun n heq => by
      subst heq
      cases s with
      | sent accepted => exact hmay
      | _ => cases hmay)]
  have hown : own' = own₀ := by
    cases s with
    | check =>
        cases (hmay : o = .loadConnected)
        cases hdoes
        rfl
    | count =>
        cases (hmay : o = .addOutstanding)
        cases hdoes
        rfl
    | push =>
        cases (hmay : o = .push (.request incremental))
        cases hdoes
        rfl
    | sent accepted => exact hmay.elim
  subst hown
  have hsub' : own'.Subscribed s' := by
    rw [hafter]
    exact hsub.after
  have hsummoned : Summoned (t ++ [⟨j, o, r⟩]) s' floor → Summoned t c.shared floor := by
    intro hsum
    rw [hafter] at hsum
    exact summoned_of_quiet hquiet h.stores hsum
  have hkeep : (s = .check → c.shared.connected = true) → Summoned (t ++ [⟨j, o, r⟩]) s' floor →
      Has (floor < s'.lastPaintedUpdate) own' s' := by
    intro hcheck hsum
    obtain ⟨x, hx, hwakes⟩ := hhas hcheck (hsummoned hsum)
    rw [hlast]
    refine ⟨x, ?_, hwakes⟩
    rw [hafter, unread_after hquiet]
    exact hx
  cases s with
  | check =>
      cases (hmay : o = .loadConnected)
      have hr : r = c.shared.connected := by
        cases hdoes
        rfl
      subst hr
      cases hconn : c.shared.connected with
      | false =>
          simp only [Sending.next, Bool.false_eq_true, if_false]
          trivial
      | true =>
          rw [hconn] at hkeep
          simp only [Sending.next, if_true, Sending.checked]
          exact ⟨hsub', fun _ => hkeep (fun _ => rfl)⟩
  | count =>
      cases (hmay : o = .addOutstanding)
      exact ⟨hsub', fun _ => hkeep (fun heq => by cases heq)⟩
  | push =>
      cases (hmay : o = .push (.request incremental))
      cases r with
      | false => trivial
      | true => exact ⟨hsub', hkeep (fun heq => by cases heq)⟩
  | sent accepted => exact hmay.elim

/-- An event that is received ends the wait, or was not one that does. -/
theorem hears_recv (h : Awake γ t c) {j floor : Nat} {own₀ : Own} {wakeup : Wakeup}
    (hears : (Refreshing.waiting floor).Hears t c.shared own₀)
    (hdoes : sessionDoes .recv m c.shared own₀ = some (wakeup, s', own')) :
    (Refreshing.woken floor wakeup).Hears (t ++ [⟨j, .recv, wakeup⟩]) s' own' := by
  obtain ⟨hsub, hhas⟩ := hears
  have hs' : s' = c.shared := sessionDoes_after hdoes
  subst hs'
  have hsummoned : Summoned (t ++ [⟨j, .recv, wakeup⟩]) c.shared floor → Summoned t c.shared floor :=
    fun hsum => summoned_of_quiet (by simp) h.stores hsum
  rcases recv_cases hdoes with ⟨next, next', got, hown, hrecv, rfl, rfl⟩ | ⟨_, rfl, rfl⟩
  · have hunread : own₀.unread c.shared
        = Broadcast.unread eventCapacity c.shared.events next := by rw [Own.unread, hown]
    have hsub' : Own.Subscribed { own₀ with next := some next' } c.shared :=
      ⟨next', rfl, Broadcast.recv_le hrecv⟩
    cases got with
    | lagged missed =>
        refine ⟨hsub', fun hsum => ?_⟩
        obtain ⟨x, hx, hwakes⟩ := hhas (hsummoned hsum)
        refine ⟨x, ?_, hwakes⟩
        show x ∈ Broadcast.unread eventCapacity c.shared.events next'
        rw [Broadcast.unread_of_lagged hrecv, ← hunread]
        exact hx
    | event e =>
        have hcons := Broadcast.unread_of_event hrecv
        -- what wakes was the event received, or is still to come
        have hlater : ∀ {passed}, Has passed own₀ c.shared → ¬ Wakes passed e →
            Has passed { own₀ with next := some next' } c.shared := by
          intro passed hhas hnot
          obtain ⟨x, hx, hwakes⟩ := hhas
          rw [hunread, hcons, List.mem_cons] at hx
          rcases hx with rfl | hx
          · exact absurd hwakes hnot
          · exact ⟨x, hx, hwakes⟩
        cases e with
        | painted generation =>
            refine ⟨hsub', fun hle hdead => hlater ?_ (fun h => h)⟩
            obtain ⟨x, hx, hwakes⟩ := hhas (.inr hdead)
            exact ⟨x, hx, hwakes.mono (fun hlt => by omega)⟩
        | disconnected reason => trivial
        | resized w height => exact ⟨hsub', fun hsum => hlater (hhas (hsummoned hsum)) (fun h => h)⟩
        | cutText text => exact ⟨hsub', fun hsum => hlater (hhas (hsummoned hsum)) (fun h => h)⟩
        | bell => exact ⟨hsub', fun hsum => hlater (hhas (hsummoned hsum)) (fun h => h)⟩
  · trivial

/-- An operation of a refresh keeps what it holds. -/
theorem hears_next (h : Awake γ t c) {j : Nat} {incremental : Bool} {role : Refreshing} {own₀ : Own}
    (hears : role.Hears t c.shared own₀) (hmay : role.may incremental o)
    (hdoes : sessionDoes o m c.shared own₀ = some (r, s', own')) :
    (role.next incremental o r).Hears (t ++ [⟨j, o, r⟩]) s' own' := by
  cases role with
  | start =>
      cases (hmay : o = .subscribe)
      cases hdoes
      exact ⟨_, rfl, Nat.le_refl _⟩
  | subscribed =>
      cases (hmay : o = .loadUpdatesBegun)
      cases hdoes
      refine ⟨hears, fun hconn hsum => ?_⟩
      -- nothing past a floor that has just been loaded has painted
      rcases summoned_of_quiet (by simp) h.stores hsum with ⟨u, hlt, hu⟩ | hdead
      · have hpassed := passed_of_announced h.stores hlt hu
        have hle := h.counted.last_le
        simp only [execInner] at hpassed
        omega
      · exact absurd (h.death.alive (hconn rfl)).1 hdead
  | asking s floor => exact hears_asking h hears hmay hdoes
  | waiting floor =>
      cases (hmay : o = .recv)
      exact hears_recv h hears hdoes
  | told floor =>
      cases (hmay : o = .loadLastPainted)
      cases hdoes
      obtain ⟨hsub, hhas⟩ := hears
      show (Refreshing.judged floor c.shared.lastPaintedUpdate).Hears _ _ _
      unfold Refreshing.judged
      split
      · trivial
      · next hnot =>
          refine ⟨hsub, fun hsum => ?_⟩
          rcases summoned_of_quiet (by simp) h.stores hsum with ⟨u, hlt, hu⟩ | hdead
          · exact absurd (passed_of_announced h.stores hlt hu) hnot
          · exact (hhas (by omega) hdead).mono False.elim
  | ready floor =>
      cases (hmay : o = .framebuffer)
      trivial
  | copied floor frame => exact hmay.elim
  | failed => exact hmay.elim

/-! ## Every run -/

theorem Reading.update_sending {update u : Nat} {painted : Bool} {s : Sending}
    (h : (sending update painted s).update? = some u) : u = update := by
  cases s with
  | sent accepted =>
      simp only [sending, asked] at h
      split at h
      · exact (Option.some.inj h).symm
      · cases h
  | _ => exact (Option.some.inj h).symm

theorem Reading.update_drained {update u : Nat} {wanted painted : Bool}
    (h : (drained wanted update painted).update? = some u) : u = update := by
  unfold drained at h
  split at h
  · exact (Option.some.inj h).symm
  · unfold asked at h
    split at h
    · exact (Option.some.inj h).symm
    · cases h

/-- The reader is at the update that has begun last. -/
theorem Reading.current_next {role : Reading} {s : Inner}
    (h : ∀ u, role.update? = some u → u = s.updatesBegun) (hmay : role.may o)
    (hdoes : sessionDoes o m s own = some (r, s', own')) :
    ∀ u, (role.next continuous o r).update? = some u → u = s'.updatesBegun := by
  have hafter := sessionDoes_after hdoes
  have hsame : o ≠ .beginUpdate → s'.updatesBegun = s.updatesBegun := by
    intro hne
    rw [hafter, after_updatesBegun hne]
  cases role with
  | idle =>
      cases (hmay : o = .disarm)
      intro u hu
      cases hu
  | listening =>
      cases (hmay : o = .fill 1)
      intro u hu
      cases r <;> cases hu
  | heard update =>
      cases (hmay : o = .arm)
      intro u hu
      cases update <;> cases hu
  | owed =>
      cases (hmay : o = .beginUpdate)
      cases hdoes
      intro u hu
      exact (Option.some.inj hu).symm
  | plain =>
      intro u hu
      cases o with
      | fill n => cases r <;> cases hu
      | setCutText text => cases hu
      | disarm => cases hu
      | swapConnected => cases hu
      | emit event => cases hu
      | _ => exact hmay.elim
  | begun update painted resized =>
      intro u hu
      cases o with
      | fill n =>
          cases r with
          | ok bytes =>
              rw [hsame (by simp)]
              exact h u hu
          | error e => cases hu
      | draw f =>
          cases r with
          | ok done =>
              rw [hsame (by simp)]
              exact h u hu
          | error e => cases hu
      | desktopSize w height =>
          rw [hsame (by simp)]
          exact h u hu
      | swapConnected => cases hu
      | storeOutstanding n =>
          rw [hsame (by simp), Reading.update_drained hu]
          exact h update rfl
      | _ => exact hmay.elim
  | resizing update painted =>
      cases (hmay : o = .storeNeedsFull true)
      rw [hsame (by simp)]
      exact h
  | flagged update painted =>
      obtain ⟨w, height, rfl⟩ := hmay
      rw [hsame (by simp)]
      exact h
  | asking q update painted =>
      intro u hu
      have hne : o ≠ .beginUpdate := by
        intro heq
        subst heq
        exact Sending.not_update hmay trivial
      rw [hsame hne, Reading.update_sending hu]
      exact h update rfl
  | announce update =>
      cases (hmay : o = .nextGeneration)
      rw [hsame (by simp)]
      exact h
  | numbered update generation =>
      cases (hmay : o = .storeLastPainted update)
      intro u hu
      cases hu
  | stored generation =>
      cases (hmay : o = .setPainted)
      intro u hu
      cases hu
  | shown generation =>
      cases (hmay : o = .emit (.painted generation))
      intro u hu
      cases hu
  | failed =>
      cases (hmay : o = .swapConnected)
      intro u hu
      cases hu
  | dying d =>
      intro u hu
      cases hu

theorem awake_step (hheard : Attended t c i m) (h : Awake γ t c)
    (hroles : Tasks.Roles (protocol continuous) Role.Ended γ c)
    (htask : c.tasks[i]? = some (.step o k, own)) (hmay : (γ i).may o)
    (hdoes : sessionDoes o m c.shared own = some (r, s', own')) :
    Awake (Tasks.moved (protocol continuous) γ i o r) (t ++ [⟨i, o, r⟩])
      ⟨s', c.tasks.set i (k r, own')⟩ := by
  have hafter := sessionDoes_after hdoes
  have hself : Tasks.moved (protocol continuous) γ i o r i = (γ i).next continuous o r :=
    Tasks.moved_self _ _ _ _ _
  have hother : ∀ {j}, j ≠ i → Tasks.moved (protocol continuous) γ i o r j = γ j :=
    fun hji => Tasks.moved_of_ne _ _ hji _ _
  refine ⟨counted_step h.counted hmay hdoes, death_step h.death htask hmay hdoes, ?_, ?_, ?_, ?_, ?_⟩
  · rw [hafter, after_events, h.events]
    simp
  · intro role hrole
    by_cases h0 : 0 = i
    · subst h0
      rw [hself] at hrole
      cases hi : γ 0 with
      | reader role' =>
          rw [hi] at hrole hmay
          cases hrole
          exact Reading.current_next (h.current role' hi) hmay hdoes
      | _ =>
          rw [hi] at hrole
          cases hrole
    · rw [hother h0] at hrole
      have hquiet := Role.quiet hmay (fun r' hr => h0 (h.counted.alone i r' hr).symm)
      have hne : o ≠ .beginUpdate := by
        intro heq
        subst heq
        exact hquiet.1 trivial
      rw [hafter, after_updatesBegun hne]
      exact h.current role hrole
  · intro u a hmem
    rw [List.mem_append, List.mem_singleton] at hmem
    rw [hafter]
    rcases hmem with hmem | heq
    · exact (h.stores u a hmem).trans (last_le_after h hmay r)
    · cases heq
      exact Nat.le_refl _
  · intro j incremental role hrole
    by_cases hji : j = i
    · subst hji
      rw [hself] at hrole
      cases hi : γ j with
      | refresh incremental' role' =>
          rw [hi] at hrole hmay
          cases hrole
          exact Refreshing.loaded_next (h.loads j _ _ hi) hmay
      | _ =>
          rw [hi] at hrole
          cases hrole
    · rw [hother hji] at hrole
      exact Refreshing.loaded_snoc (h.loads j _ _ hrole) hji o r
  · intro j incremental role o₀ k₀ own₀ hrole hget
    by_cases hji : j = i
    · subst hji
      rw [hself] at hrole
      rw [List.getElem?_set_self (List.getElem?_eq_some_iff.mp htask).1] at hget
      obtain ⟨_, rfl⟩ := Prod.mk.inj (Option.some.inj hget)
      cases hi : γ j with
      | refresh incremental' role' =>
          rw [hi] at hrole hmay
          cases hrole
          exact hears_next h (h.hears j _ _ o k own hi htask) hmay hdoes
      | _ =>
          rw [hi] at hrole
          cases hrole
    · rw [hother hji] at hrole
      rw [List.getElem?_set_ne (Ne.symm hji)] at hget
      have hmay₀ := (hroles j _ _ hget).1
      rw [hrole] at hmay₀
      rw [hafter]
      exact hears_others hheard h htask hmay hrole hmay₀ hget
        (h.hears j incremental role o₀ k₀ own₀ hrole hget)

end

theorem awake_start {z : Decompress} (width height : UInt16) (name : String) (continuous : Bool)
    (n m : Nat) (d : Decoders z) (calls : List Call) :
    Awake (sessionRoles continuous calls) [] (session width height name continuous n m d calls) := by
  have hstart : ∀ j incremental role, sessionRoles continuous calls j = .refresh incremental role →
      role = .start := by
    intro j incremental role hrole
    match j, hrole with
    | 0, hrole => cases hrole
    | 1, hrole => cases hrole
    | 2, hrole => cases hrole
    | j + 3, hrole =>
        simp only [sessionRoles] at hrole
        cases hcall : calls[j]? with
        | none =>
            rw [hcall] at hrole
            cases hrole
        | some call =>
            rw [hcall] at hrole
            cases call <;> cases hrole
            rfl
  refine ⟨counted_start width height name continuous n m d calls,
    death_start width height name continuous n m d calls, rfl, ?_, ?_, ?_, ?_⟩
  · intro role hrole u hu
    cases hrole
    cases hu
  · intro u a hmem
    cases hmem
  · intro j incremental role hrole
    rw [hstart j incremental role hrole]
    exact fun f hf => by cases hf
  · intro j incremental role o k own hrole _
    rw [hstart j incremental role hrole]
    trivial

/-- A task that waits for an event is a refresh in its loop. -/
theorem waiting_of_recv {role : Role} (hmay : role.may .recv) :
    ∃ incremental floor, role = .refresh incremental (.waiting floor) := by
  cases role with
  | reader r =>
      cases r with
      | plain => exact hmay.elim
      | begun update painted resized => exact hmay.elim
      | flagged update painted =>
          obtain ⟨w, h, hmay⟩ := hmay
          cases hmay
      | asking s update painted =>
          cases s with
          | sent accepted => exact hmay.elim
          | _ => cases hmay
      | dying d =>
          cases d with
          | announce =>
              obtain ⟨reason, hmay⟩ := hmay
              cases hmay
          | done => exact hmay.elim
          | _ => cases hmay
      | _ => cases hmay
  | writer w =>
      cases w with
      | dying d =>
          cases d with
          | announce =>
              obtain ⟨reason, hmay⟩ := hmay
              cases hmay
          | done => exact hmay.elim
          | _ => cases hmay
      | gone => exact hmay.elim
      | _ => cases hmay
  | refresh incremental r =>
      cases r with
      | waiting floor => exact ⟨incremental, floor, rfl⟩
      | asking s floor =>
          cases s with
          | sent accepted => exact hmay.elim
          | _ => cases hmay
      | copied floor frame => exact hmay.elim
      | failed => exact hmay.elim
      | _ => cases hmay
  | sender command s =>
      cases s with
      | sent accepted => exact hmay.elim
      | _ => cases hmay
  | closer d =>
      cases d with
      | announce =>
          obtain ⟨reason, hmay⟩ := hmay
          cases hmay
      | done => exact hmay.elim
      | _ => cases hmay

/-- A Disconnected that was sent is counted. -/
theorem deaths_of_deadSince {t : List (Tasks.Entry SessionSig)} {i : Inner} {j : Nat}
    (hevents : i.events = t.flatMap (fun e => e.op.emits)) (h : DeadSince t j) : i.deaths ≠ 0 := by
  obtain ⟨before, subscribed, after, i', reason, sent, rfl, hmem⟩ := h
  have hsent : ServerEvent.disconnected reason ∈ i.events := by
    rw [hevents, List.mem_flatMap]
    exact ⟨_, List.mem_append_right _ (List.mem_cons_of_mem _ hmem), List.mem_singleton.mpr rfl⟩
  intro hzero
  exact List.countP_eq_zero.mp hzero _ hsent rfl

/-- **A refresh never misses its wakeup**, in a run of which no step makes it
lose one: a refresh that waits and has nothing left to receive has seen no
update past its floor announced, and no death since it subscribed. -/
theorem refresh_woken {z : Decompress} {width height : UInt16} {name : String} {continuous : Bool}
    {n m : Nat} {d : Decoders z} {calls : List Call} {t : List (Tasks.Entry SessionSig)}
    {c : Tasks SessionSig Stop Returned Inner Own} {j floor : Nat} {k : Wakeup → Task Returned}
    {own : Own} (hrun : Tasks.Runs sessionDoes Attended
      (session width height name continuous n m d calls) t c)
    (hwaits : c.tasks[j]? = some (.step .recv k, own)) (hnothing : own.unread c.shared = [])
    (hfloor : ⟨j, .loadUpdatesBegun, floor⟩ ∈ t) :
    (∀ u, floor < u → ¬ Announced t u) ∧ ¬ DeadSince t j := by
  obtain ⟨γ, hroles, h⟩ := hrun.joint (D := protocol continuous)
    (session_roles width height name n m d calls)
    (awake_start width height name continuous n m d calls)
    (fun t c γ i m o k l r s' l' hheard hroles hj htask hmay hdoes =>
      ⟨sessionDoes_answered hdoes, awake_step hheard hj hroles htask hmay hdoes⟩)
  obtain ⟨incremental, floor', hrole⟩ := waiting_of_recv (hroles j _ _ hwaits).1
  have hsame : floor = floor' := h.loads j incremental _ hrole floor hfloor
  subst hsame
  obtain ⟨_, hhas⟩ := h.hears j incremental _ .recv k own hrole hwaits
  have hnot : ¬ Summoned t c.shared floor := by
    intro hsum
    obtain ⟨x, hx, _⟩ := hhas hsum
    rw [hnothing] at hx
    cases hx
  exact ⟨fun u hlt hu => hnot (.inl ⟨u, hlt, hu⟩),
    fun hdead => hnot (.inr (deaths_of_deadSince h.events hdead))⟩

/-! ## With and without a lag -/

/-- A session with one call, a refresh that waits for as many as 258 events. -/
def oneLong : Tasks SessionSig Stop Returned Inner Own :=
  session 1 1 "desktop" false 257 0 (Decoders.new stored) [.refresh 258 true 5000000000]

/-- The refresh is about to wait. -/
def asks : List (Nat × Choice) := moves 3 [[], [], [], [], []]

/-- The reader reads a bell. -/
def bell : List (Nat × Choice) := moves 0 [[], [2], [], []]

/-- The task's next operation is a wait for an event. -/
def receives? : Task Returned → Bool
  | .step .recv _ => true
  | _ => false

theorem receives_of_check {p : Task Returned} (h : receives? p = true) :
    ∃ k, p = .step .recv k := by
  unfold receives? at h
  split at h
  · next k => exact ⟨k, rfl⟩
  · cases h

/-- The entry is the load of a floor by task `j`. -/
def loads? (j floor : Nat) (e : Tasks.Entry SessionSig) : Bool :=
  match e with
  | ⟨i, .loadUpdatesBegun, f⟩ => i = j ∧ f = floor
  | _ => false

theorem mem_of_loads {t : List (Tasks.Entry SessionSig)} {j floor : Nat}
    (h : t.any (loads? j floor) = true) : ⟨j, .loadUpdatesBegun, floor⟩ ∈ t := by
  obtain ⟨e, hmem, he⟩ := List.any_eq_true.mp h
  unfold loads? at he
  split at he
  · next i f =>
      obtain ⟨rfl, rfl⟩ := of_decide_eq_true he
      exact hmem
  · cases he

def stores? (u : Nat) (e : Tasks.Entry SessionSig) : Bool :=
  match e with
  | ⟨i, .storeLastPainted n, _⟩ => i = 0 ∧ n = u
  | _ => false

def paints? (e : Tasks.Entry SessionSig) : Bool :=
  match e with
  | ⟨i, .emit (.painted _), _⟩ => i = 0
  | _ => false

/-- Whether update `u` has been announced. -/
def announced? (t : List (Tasks.Entry SessionSig)) (u : Nat) : Bool :=
  match t.dropWhile (fun e => !stores? u e) with
  | [] => false
  | _ :: after => after.any paints?

theorem announced_of_check {t : List (Tasks.Entry SessionSig)} {u : Nat}
    (h : announced? t u = true) : Announced t u := by
  unfold announced? at h
  split at h
  · cases h
  · next e after hdrop =>
      have hstores : stores? u e = true := by
        have hcons : t.dropWhile (fun e => !stores? u e) ≠ [] := by
          rw [hdrop]
          simp
        have hne := List.head_dropWhile_not (fun e => !stores? u e) hcons
        simpa [hdrop] using hne
      have ht : t = t.takeWhile (fun e => !stores? u e) ++ e :: after := by
        rw [← hdrop, List.takeWhile_append_dropWhile]
      obtain ⟨e', hmem, hpaints⟩ := List.any_eq_true.mp h
      unfold stores? at hstores
      unfold paints? at hpaints
      split at hstores
      · next i n stored =>
          split at hpaints
          · next i' generation sent =>
              obtain ⟨rfl, rfl⟩ := of_decide_eq_true hstores
              cases of_decide_eq_true hpaints
              exact ⟨_, stored, after, generation, sent, ht, hmem⟩
          · cases hpaints
      · cases hstores

/-- A step that makes nobody lose an event: it sends none, or no receiver is full. -/
def attended? (_t : List (Tasks.Entry SessionSig)) (c : Tasks SessionSig Stop Returned Inner Own)
    (i : Nat) (_m : Choice) : Bool :=
  match c.tasks[i]? with
  | some (.step (.emit _) _, _) =>
      c.tasks.all (fun task => (task.2.unread c.shared).length < eventCapacity)
  | _ => true

theorem attended_of_check (t : List (Tasks.Entry SessionSig))
    (c : Tasks SessionSig Stop Returned Inner Own) (i : Nat) (m : Choice)
    (h : attended? t c i m = true) : Attended t c i m where
  sends event k own htask j p own₀ floor hget _ _ hloses := by
    rw [attended?, htask] at h
    have hroom := of_decide_eq_true (List.all_eq_true.mp h _ (List.mem_of_getElem? hget))
    rw [hloses.1] at hroom
    exact Nat.lt_irrefl _ hroom

/-- A refresh that has received a bell and goes on waiting. -/
theorem refresh_woken_bell :
    ∃ t c k own, Tasks.Runs sessionDoes Attended oneLong t c ∧
      c.tasks[3]? = some (.step .recv k, own) ∧ own.unread c.shared = [] ∧
      (∀ u, 0 < u → ¬ Announced t u) ∧ ¬ DeadSince t 3 := by
  have hend : (oneLong.record attended? sessionDoes (asks ++ bell ++ moves 3 [[]]) []).map
      (fun e => (e.1.any (loads? 3 0), e.2.tasks[3]?.map (fun task =>
        (receives? task.1, task.2.unread e.2.shared)))) = some (true, some (true, [])) := by
    decide +kernel
  obtain ⟨⟨t, c⟩, hrecord, heq⟩ := Option.map_eq_some_iff.mp hend
  obtain ⟨hloads, htask⟩ := Prod.mk.inj heq
  obtain ⟨⟨p, own⟩, hget, heq⟩ := Option.map_eq_some_iff.mp htask
  obtain ⟨hreceives, hnothing⟩ := Prod.mk.inj heq
  obtain ⟨k, rfl⟩ := receives_of_check hreceives
  have hrun := Tasks.runs_record attended_of_check hrecord .start
  exact ⟨t, c, k, own, hrun, hget, hnothing,
    refresh_woken hrun hget hnothing (mem_of_loads hloads)⟩

set_option maxRecDepth 20000 in
/-- An update paints while a refresh waits for it, and 256 bells push its
Painted event out before the refresh is polled. -/
theorem not_refresh_woken_bells :
    ¬ ∀ t c j floor u k own, Tasks.Runs sessionDoes Tasks.Anyhow oneLong t c →
      c.tasks[j]? = some (.step .recv k, own) → own.unread c.shared = [] →
      ⟨j, .loadUpdatesBegun, floor⟩ ∈ t → floor < u → ¬ Announced t u := by
  intro hall
  have hend : (oneLong.record (fun _ _ _ _ => true) sessionDoes (asks ++ paints ++ announces ++
      (List.replicate 256 bell).flatten ++ moves 3 (List.replicate 257 [])) []).map
        (fun e => (e.1.any (loads? 3 0), announced? e.1 1, e.2.tasks[3]?.map (fun task =>
          (receives? task.1, task.2.unread e.2.shared)))) = some (true, true, some (true, [])) := by
    decide +kernel
  obtain ⟨⟨t, c⟩, hrecord, heq⟩ := Option.map_eq_some_iff.mp hend
  obtain ⟨hloads, heq⟩ := Prod.mk.inj heq
  obtain ⟨hannounced, htask⟩ := Prod.mk.inj heq
  obtain ⟨⟨p, own⟩, hget, heq⟩ := Option.map_eq_some_iff.mp htask
  obtain ⟨hreceives, hnothing⟩ := Prod.mk.inj heq
  obtain ⟨k, rfl⟩ := receives_of_check hreceives
  have hrun : Tasks.Runs sessionDoes Tasks.Anyhow oneLong t c :=
    Tasks.runs_record (fun _ _ _ _ _ => trivial) hrecord .start
  exact hall t c 3 0 1 k own hrun hget hnothing (mem_of_loads hloads) (by decide)
    (announced_of_check hannounced)

end Bolide.Rfb
