/-
Bolide.Rfb.DeathTheorems — what follows the death of a session.

Any of four parties may announce it: the reader, the writer, a `close`, the
drop of the last handle. The swap of `connected` lets only one of them
through, so there is at most one Disconnected, and exactly one once the
announcement is finished: that is `Death`, an invariant of every run.

The reader looks at the shutdown signal only where it waits for bytes, so
what it has still to say of the message it is in comes after a Disconnected
that another task has sent. `Telling` is a reader that has something to say
before it next reads, and `Hushed` the condition on a step under which no
Disconnected is sent over one.
-/
import Bolide.Rfb.RolesTheorems
import Bolide.Rfb.InflateTheorems

namespace Bolide.Rfb

open Lib Prog

/-! ## Who announces -/

/-- The task has found the session connected and has yet to say it is not. -/
def Role.Announcing : Role → Prop
  | reader (.dying .announce) => True
  | writer (.dying .announce) => True
  | closer .announce => True
  | _ => False

def ServerEvent.isDisconnected : ServerEvent → Bool
  | disconnected _ => true
  | _ => false

/-- How many times death has been announced. -/
def Inner.deaths (i : Inner) : Nat := i.events.countP ServerEvent.isDisconnected

/-- The announcement is all an announcing task may do next. -/
theorem Role.emits_of_announcing {role : Role} {o : Op} (h : role.Announcing) (hmay : role.may o) :
    ∃ reason, o = .emit (.disconnected reason) := by
  cases role with
  | reader r =>
      cases r with
      | dying d =>
          cases d with
          | announce => exact hmay
          | _ => exact h.elim
      | _ => exact h.elim
  | writer w =>
      cases w with
      | dying d =>
          cases d with
          | announce => exact hmay
          | _ => exact h.elim
      | _ => exact h.elim
  | closer d =>
      cases d with
      | announce => exact hmay
      | _ => exact h.elim
  | _ => exact h.elim

theorem Sending.not_disconnected {s : Sending} {command : Command} {reason : Option Error} :
    ¬ s.may command (.emit (.disconnected reason)) := by
  intro h
  cases s with
  | sent accepted => exact h
  | _ => cases h

theorem Dying.announce_of_disconnected {d : Dying} {reason : Option Error}
    (hmay : d.may (.emit (.disconnected reason))) : d = announce := by
  cases d with
  | announce => rfl
  | done => exact hmay.elim
  | _ => cases hmay

/-- Only an announcing task sends a Disconnected. -/
theorem Role.announcing_of_emits {role : Role} {reason : Option Error}
    (hmay : role.may (.emit (.disconnected reason))) : role.Announcing := by
  cases role with
  | reader r =>
      cases r with
      | dying d =>
          cases Dying.announce_of_disconnected hmay
          trivial
      | plain =>
          rcases hmay with h | ⟨text, h⟩
          · cases h
          · cases h
      | begun update painted resized => exact hmay.elim
      | flagged update painted =>
          obtain ⟨w, h, hmay⟩ := hmay
          cases hmay
      | asking s update painted => exact (Sending.not_disconnected hmay).elim
      | _ => cases hmay
  | writer w =>
      cases w with
      | dying d =>
          cases Dying.announce_of_disconnected hmay
          trivial
      | gone => exact hmay.elim
      | _ => cases hmay
  | refresh incremental r =>
      cases r with
      | asking s floor => exact (Sending.not_disconnected hmay).elim
      | copied floor frame => exact hmay.elim
      | failed => exact hmay.elim
      | _ => cases hmay
  | sender command s => exact (Sending.not_disconnected hmay).elim
  | closer d =>
      cases Dying.announce_of_disconnected hmay
      trivial

/-! ## Who comes to announce -/

theorem Dying.next_announce {d : Dying} {o : Op} {r : o.Resp} (hmay : d.may o)
    (h : d.next o r = announce) : o = .swapConnected := by
  cases d with
  | swap => exact hmay
  | announce =>
      obtain ⟨reason, rfl⟩ := hmay
      cases h
  | signal =>
      cases (hmay : o = .signalShutdown)
      cases h
  | done => exact hmay.elim

theorem Reading.next_announce {continuous : Bool} {role : Reading} {o : Op} {r : o.Resp}
    (hmay : role.may o) (h : role.next continuous o r = dying .announce) : o = .swapConnected := by
  rcases Reading.next_dying hmay h with hswap | ⟨d, rfl, hd⟩
  · exact hswap
  · exact Dying.next_announce hmay hd.symm

theorem Writing.next_announce {role : Writing} {o : Op} {r : o.Resp} (hmay : role.may o)
    (h : role.next o r = dying .announce) : o = .swapConnected := by
  rcases Writing.next_dying hmay h with hswap | ⟨d, rfl, hd⟩
  · exact hswap
  · exact Dying.next_announce hmay hd.symm

/-- A task comes to announce only by the swap of `connected`. -/
theorem Role.next_announcing {continuous : Bool} {role : Role} {o : Op} {r : o.Resp}
    (hmay : role.may o) (h : (role.next continuous o r).Announcing) : o = .swapConnected := by
  cases role with
  | reader role =>
      have hnext : role.next continuous o r = .dying .announce := by
        simp only [next] at h
        generalize role.next continuous o r = role' at h ⊢
        cases role' with
        | dying d => cases d <;> first | rfl | exact h.elim
        | _ => exact h.elim
      exact Reading.next_announce hmay hnext
  | writer role =>
      have hnext : role.next o r = .dying .announce := by
        simp only [next] at h
        generalize role.next o r = role' at h ⊢
        cases role' with
        | dying d => cases d <;> first | rfl | exact h.elim
        | _ => exact h.elim
      exact Writing.next_announce hmay hnext
  | closer d =>
      have hnext : d.next o r = .announce := by
        simp only [next] at h
        generalize d.next o r = d' at h ⊢
        cases d' <;> first | rfl | exact h.elim
      exact Dying.next_announce hmay hnext
  | _ => exact h.elim

/-- It does exactly if it found the session connected. -/
theorem Role.swap_announcing {continuous : Bool} {role : Role} (hmay : role.may .swapConnected)
    (was : Bool) : (role.next continuous .swapConnected was).Announcing ↔ was = true := by
  have hswapped : ∀ role' : Role, (role' = .reader (.dying (.swapped was)) ∨
      role' = .writer (.buried (.swapped was)) ∨ role' = .closer (.swapped was)) →
        (role'.Announcing ↔ was = true) := by
    intro role' h
    rcases h with rfl | rfl | rfl <;> cases was <;> simp [Dying.swapped, Writing.buried, Announcing]
  cases role with
  | reader role =>
      cases role with
      | plain => exact hswapped _ (.inl rfl)
      | begun update painted resized => exact hswapped _ (.inl rfl)
      | failed => exact hswapped _ (.inl rfl)
      | flagged update painted =>
          obtain ⟨w, h, hmay⟩ := hmay
          cases hmay
      | asking s update painted =>
          cases s with
          | sent accepted => exact hmay.elim
          | _ => cases hmay
      | dying d =>
          cases d with
          | swap => exact hswapped _ (.inl rfl)
          | announce =>
              obtain ⟨reason, hmay⟩ := hmay
              cases hmay
          | done => exact hmay.elim
          | signal => cases hmay
      | _ => cases hmay
  | writer role =>
      cases role with
      | failed => exact hswapped _ (.inr (.inl rfl))
      | dying d =>
          cases d with
          | swap => exact hswapped _ (.inr (.inl rfl))
          | announce =>
              obtain ⟨reason, hmay⟩ := hmay
              cases hmay
          | done => exact hmay.elim
          | signal => cases hmay
      | gone => exact hmay.elim
      | _ => cases hmay
  | refresh incremental r =>
      cases r with
      | asking s floor =>
          cases s with
          | sent accepted => exact hmay.elim
          | _ => cases hmay
      | copied floor frame => exact hmay.elim
      | failed => exact hmay.elim
      | _ => cases hmay
  | sender command s =>
      cases s with
      | sent accepted => exact hmay.elim
      | _ => cases hmay
  | closer d =>
      cases d with
      | swap => exact hswapped _ (.inr (.inr rfl))
      | announce =>
          obtain ⟨reason, hmay⟩ := hmay
          cases hmay
      | done => exact hmay.elim
      | signal => cases hmay

/-! ## At most one announcement -/

/-- The invariant: while the session is connected nobody has announced or is
about to; once it is not, one task is about to or one announcement is sent. -/
structure Death (γ : Nat → Role) (c : Tasks SessionSig Stop Returned Inner Own) : Prop where
  alive : c.shared.connected = true → c.shared.deaths = 0 ∧ ∀ j, ¬ (γ j).Announcing
  dead : c.shared.connected = false →
    (c.shared.deaths = 0 ∧ ∃ j, (γ j).Announcing ∧ ∀ j', (γ j').Announcing → j' = j) ∨
      (c.shared.deaths = 1 ∧ ∀ j, ¬ (γ j).Announcing)
  tasks : ∀ j, c.tasks[j]? = none → γ j = .closer .done

theorem deaths_emit (i : Inner) (event : ServerEvent) :
    (i.emit event).deaths = i.deaths + if event.isDisconnected = true then 1 else 0 := by
  simp [Inner.deaths, Inner.emit, List.countP_append, List.countP_cons]

/-- Nothing but a Disconnected counts. -/
theorem deaths_after {o : Op} (h : ∀ reason, o ≠ .emit (.disconnected reason)) (r : o.Resp)
    (i : Inner) : (o.after r i).deaths = i.deaths := by
  rw [Inner.deaths, after_events, List.countP_append]
  cases o with
  | emit event =>
      cases event with
      | disconnected reason => exact absurd rfl (h reason)
      | _ => rfl
  | _ => rfl

section

variable {continuous : Bool} {γ : Nat → Role} {t : List (Tasks.Entry SessionSig)}
  {c : Tasks SessionSig Stop Returned Inner Own} {i : Nat} {m : Choice} {o : Op}
  {k : o.Resp → Task Returned} {own own' : Own} {r : o.Resp} {s' : Inner}

theorem death_step (h : Death γ c) (htask : c.tasks[i]? = some (.step o k, own))
    (hmay : (γ i).may o) (hdoes : sessionDoes o m c.shared own = some (r, s', own')) :
    Death (Tasks.moved (protocol continuous) γ i o r) ⟨s', c.tasks.set i (k r, own')⟩ := by
  have hafter := sessionDoes_after hdoes
  have hself : Tasks.moved (protocol continuous) γ i o r i = (γ i).next continuous o r :=
    Tasks.moved_self _ _ _ _ _
  have hother : ∀ {j}, j ≠ i → Tasks.moved (protocol continuous) γ i o r j = γ j :=
    fun hji => Tasks.moved_of_ne _ _ hji _ _
  have htasks : ∀ j, (c.tasks.set i (k r, own'))[j]? = none →
      Tasks.moved (protocol continuous) γ i o r j = .closer .done := by
    intro j hnone
    have hlt := (List.getElem?_eq_some_iff.mp htask).1
    rw [List.getElem?_eq_none_iff, List.length_set] at hnone
    rw [hother (by omega)]
    exact h.tasks j (List.getElem?_eq_none_iff.mpr hnone)
  by_cases hswap : o = .swapConnected
  · subst hswap
    have hr : r = c.shared.connected := by
      cases hdoes
      rfl
    subst hr
    have hdown : s'.connected = false := by
      rw [hafter]
      rfl
    have hdeaths : s'.deaths = c.shared.deaths := by
      rw [hafter]
      rfl
    have hnext : ((γ i).next continuous .swapConnected c.shared.connected).Announcing ↔
        c.shared.connected = true := Role.swap_announcing hmay c.shared.connected
    refine ⟨fun halive => (by cases hdown.symm.trans halive), fun _ => ?_, htasks⟩
    simp only [hdeaths]
    cases hconn : c.shared.connected with
    | true =>
        obtain ⟨hnone, hquiet⟩ := h.alive hconn
        rw [hconn] at hself hnext hother
        refine .inl ⟨hnone, i, ?_, fun j hj => ?_⟩
        · rw [hself]
          exact hnext.mpr rfl
        · by_cases hji : j = i
          · exact hji
          · rw [hother hji] at hj
            exact (hquiet j hj).elim
    | false =>
        rw [hconn] at hself hnext hother
        have hkeep : ∀ j, (Tasks.moved (protocol continuous) γ i .swapConnected false j).Announcing →
            (γ j).Announcing ∧ j ≠ i := by
          intro j hj
          by_cases hji : j = i
          · subst hji
            rw [hself] at hj
            cases hnext.mp hj
          · rw [hother hji] at hj
            exact ⟨hj, hji⟩
        rcases h.dead hconn with ⟨hnone, j, hj, honly⟩ | ⟨hone, hquiet⟩
        · have hji : j ≠ i := by
            intro hji
            subst hji
            obtain ⟨reason, hne⟩ := Role.emits_of_announcing hj hmay
            cases hne
          refine .inl ⟨hnone, j, ?_, fun j' hj' => honly j' (hkeep j' hj').1⟩
          rw [hother hji]
          exact hj
        · exact .inr ⟨hone, fun j hj => hquiet j (hkeep j hj).1⟩
  · have hconn : s'.connected = c.shared.connected := by rw [hafter, after_connected hswap]
    have hnext : ¬ (Tasks.moved (protocol continuous) γ i o r i).Announcing := by
      rw [hself]
      exact fun hann => hswap (Role.next_announcing hmay hann)
    have hkeep : ∀ j, (Tasks.moved (protocol continuous) γ i o r j).Announcing →
        (γ j).Announcing ∧ j ≠ i := by
      intro j hj
      by_cases hji : j = i
      · subst hji
        exact (hnext hj).elim
      · rw [hother hji] at hj
        exact ⟨hj, hji⟩
    by_cases hsaid : ∃ reason, o = .emit (.disconnected reason)
    · obtain ⟨reason, rfl⟩ := hsaid
      have hann := Role.announcing_of_emits hmay
      have hfalse : c.shared.connected = false := by
        cases hc : c.shared.connected with
        | true => exact ((h.alive hc).2 i hann).elim
        | false => rfl
      rcases h.dead hfalse with ⟨hnone, j, hj, honly⟩ | ⟨_, hquiet⟩
      · refine ⟨fun halive => ?_, fun _ => .inr ⟨?_, fun j' hj' => ?_⟩, htasks⟩
        · rw [hconn, hfalse] at halive
          cases halive
        · rw [hafter]
          show (c.shared.emit (.disconnected reason)).deaths = 1
          rw [deaths_emit, hnone]
          rfl
        · obtain ⟨hj'', hne⟩ := hkeep j' hj'
          exact hne ((honly j' hj'').trans (honly i hann).symm)
      · exact (hquiet i hann).elim
    · have hdeaths : s'.deaths = c.shared.deaths := by
        rw [hafter, deaths_after (fun reason heq => hsaid ⟨reason, heq⟩)]
      refine ⟨fun halive => ?_, fun hdead => ?_, htasks⟩
      · rw [hconn] at halive
        rw [hdeaths]
        exact ⟨(h.alive halive).1, fun j hj => (h.alive halive).2 j (hkeep j hj).1⟩
      · rw [hconn] at hdead
        rw [hdeaths]
        rcases h.dead hdead with ⟨hnone, j, hj, honly⟩ | ⟨hone, hquiet⟩
        · have hji : j ≠ i := by
            intro hji
            subst hji
            exact hsaid (Role.emits_of_announcing hj hmay)
          refine .inl ⟨hnone, j, ?_, fun j' hj' => honly j' (hkeep j' hj').1⟩
          rw [hother hji]
          exact hj
        · exact .inr ⟨hone, fun j hj => hquiet j (hkeep j hj).1⟩

end

/-- Nobody announces in a session that has just been opened. -/
theorem death_start {z : Decompress} (width height : UInt16) (name : String) (continuous : Bool)
    (n m : Nat) (d : Decoders z) (calls : List Call) :
    Death (sessionRoles continuous calls) (session width height name continuous n m d calls) := by
  refine ⟨fun _ => ⟨rfl, fun j hj => ?_⟩, fun h => (by cases h), fun j hnone => ?_⟩
  · rcases j with _ | _ | _ | j
    · exact hj
    · exact hj
    · exact hj
    · simp only [sessionRoles] at hj
      cases hcall : calls[j]? with
      | none =>
          rw [hcall] at hj
          exact hj
      | some call =>
          rw [hcall] at hj
          cases call <;> exact hj
  · simp only [session, sessionTasks, List.getElem?_eq_none_iff, List.length_map,
      List.length_cons] at hnone
    rcases j with _ | _ | _ | j
    · omega
    · omega
    · omega
    · have hcall : calls[j]? = none := List.getElem?_eq_none_iff.mpr (by omega)
      simp only [sessionRoles, hcall, Option.map_none, Option.getD_none]

/-- An announcing task's next operation is its announcement. -/
theorem announces_of_announcing {continuous : Bool} {γ : Nat → Role}
    {c : Tasks SessionSig Stop Returned Inner Own} (h : Death γ c)
    (hroles : Tasks.Roles (protocol continuous) Role.Ended γ c) {j : Nat}
    (hj : (γ j).Announcing) :
    ∃ reason k own, (.step (.emit (.disconnected reason)) k, own) ∈ c.tasks := by
  cases hget : c.tasks[j]? with
  | none =>
      rw [h.tasks j hget] at hj
      exact hj.elim
  | some task =>
      obtain ⟨p, own⟩ := task
      have hf := hroles j p own hget
      cases p with
      | step o k =>
          obtain ⟨reason, rfl⟩ := Role.emits_of_announcing hj hf.1
          exact ⟨reason, k, own, List.mem_of_getElem? hget⟩
      | ret a =>
          exfalso
          generalize γ j = role at hf hj
          cases role with
          | reader r =>
              cases r with
              | dying d => cases d <;> first | exact hj | exact hf.2
              | _ => exact hj
          | writer w =>
              cases w with
              | dying d => cases d <;> first | exact hj | exact hf.2
              | _ => exact hj
          | closer d =>
              cases (hf.2 : d = .done)
              exact hj
          | _ => exact hj
      | fail e =>
          exfalso
          generalize γ j = role at hf hj
          cases role with
          | reader r => cases r <;> first | exact hj | exact hf
          | writer w =>
              cases (hf : w = .failed)
              exact hj
          | closer d => exact hf
          | _ => exact hj

/-- A death that nobody is in the middle of announcing has been announced. -/
theorem deaths_of_dead {continuous : Bool} {γ : Nat → Role}
    {c : Tasks SessionSig Stop Returned Inner Own} (h : Death γ c)
    (hroles : Tasks.Roles (protocol continuous) Role.Ended γ c)
    (hdead : c.shared.connected = false)
    (hdone : ∀ reason k own, (.step (.emit (.disconnected reason)) k, own) ∉ c.tasks) :
    c.shared.deaths = 1 := by
  rcases h.dead hdead with ⟨_, j, hj, _⟩ | ⟨hone, _⟩
  · obtain ⟨reason, k, own, hmem⟩ := announces_of_announcing h hroles hj
    exact (hdone reason k own hmem).elim
  · exact hone

/-! ## The last word -/

/-- The operation sends an event other than a Disconnected. -/
def Op.Says (o : Op) : Prop := ∃ event, o = .emit event ∧ event.isDisconnected = false

/-- The answer brings bytes of the server. -/
def Op.Brings : (o : Op) → o.Resp → Prop
  | .fill _, .ok _ => True
  | _, _ => False

/-- Given nothing more to read, the task still has an event to send. -/
def Telling {α : Type} : Task α → Prop
  | .step o k => o.Says ∨ ∃ r, ¬ o.Brings r ∧ Telling (k r)
  | _ => False

theorem not_telling_step {α : Type} {o : Op} {k : o.Resp → Task α} (h : ¬ Telling (.step o k))
    {r : o.Resp} (hbrings : ¬ o.Brings r) : ¬ Telling (k r) :=
  fun hspeaks => h (.inr ⟨r, hbrings, hspeaks⟩)

/-- The condition on a step: another task than the reader announces death
while the reader has nothing to say before it next reads, and after that the
reader's wait for bytes ends by the shutdown. -/
structure Hushed (_t : List (Tasks.Entry SessionSig))
    (c : Tasks SessionSig Stop Returned Inner Own) (i : Nat) (m : Choice) : Prop where
  announced : ∀ reason k own, i ≠ 0 →
    c.tasks[i]? = some (.step (.emit (.disconnected reason)) k, own) →
    ∀ p own, c.tasks[0]? = some (p, own) → ¬ Telling p
  reads : ∀ n k own bytes, c.tasks[i]? = some (.step (.fill n) k, own) → m.arrives = .ok bytes →
    c.shared.deaths = 0

/-- A task that has announced death, or found it announced, says no more. -/
theorem not_telling_of_dying {continuous : Bool} {α : Type} {p : Task α} :
    ∀ {d : Dying} {Q : α → Role → Prop},
      Follows (protocol continuous) (.reader (.dying d)) p Q → ¬ Telling p := by
  induction p with
  | ret a => exact fun _ h => h
  | fail e => exact fun _ h => h
  | step o k ih =>
      intro d Q hf hspeaks
      have hmay : d.may o := hf.1
      rcases hspeaks with ⟨event, rfl, hevent⟩ | ⟨r, _, hspeaks⟩
      · cases d with
        | announce =>
            obtain ⟨reason, hmay⟩ := hmay
            cases hmay
            cases hevent
        | done => exact hmay.elim
        | _ => cases hmay
      · refine ih r (hf.2 r ?_) hspeaks
        cases d with
        | swap =>
            cases (hmay : o = .swapConnected)
            trivial
        | announce =>
            obtain ⟨reason, rfl⟩ := hmay
            trivial
        | signal =>
            cases (hmay : o = .signalShutdown)
            trivial
        | done => exact hmay.elim

/-- A task other than the reader sends nothing but a Disconnected. -/
theorem Role.says_reader {role : Role} {o : Op} (hmay : role.may o) (hsaid : o.Says) :
    ∃ r, role = .reader r := by
  obtain ⟨event, rfl, hevent⟩ := hsaid
  have hdie : ∀ d : Dying, ¬ d.may (.emit event) := by
    intro d h
    cases d with
    | announce =>
        obtain ⟨reason, h⟩ := h
        cases h
        cases hevent
    | done => exact h
    | _ => cases h
  have hsend : ∀ (s : Sending) command, ¬ s.may command (.emit event) := by
    intro s command h
    cases s with
    | sent accepted => exact h
    | _ => cases h
  cases role with
  | reader r => exact ⟨r, rfl⟩
  | writer w =>
      cases w with
      | dying d => exact (hdie d hmay).elim
      | gone => exact hmay.elim
      | _ => cases hmay
  | refresh incremental r =>
      cases r with
      | asking s floor => exact (hsend s _ hmay).elim
      | copied floor frame => exact hmay.elim
      | failed => exact hmay.elim
      | _ => cases hmay
  | sender command s => exact (hsend s command hmay).elim
  | closer d => exact (hdie d hmay).elim

/-- The invariant of a hushed run. Task 0 is the reader. -/
structure LastWord (γ : Nat → Role) (c : Tasks SessionSig Stop Returned Inner Own) : Prop where
  death : Death γ c
  first : ∃ r, γ 0 = .reader r
  alone : ∀ j r, γ j = .reader r → j = 0
  silent : c.shared.deaths ≠ 0 → ∀ p own, c.tasks[0]? = some (p, own) → ¬ Telling p
  last : ∀ before event after, c.shared.events = before ++ event :: after →
    event.isDisconnected = true → after = []

/-- Nothing is sent after a Disconnected. -/
theorem last_emit {events : List ServerEvent} {e : ServerEvent}
    (hnone : events.countP ServerEvent.isDisconnected = 0) :
    ∀ before event after, events ++ [e] = before ++ event :: after →
      event.isDisconnected = true → after = [] := by
  intro before event after heq hevent
  rcases Tasks.snoc_split heq with ⟨hafter, -, -⟩ | ⟨rest, -, hevents⟩
  · exact hafter
  · have hmem : event ∈ events := by
      rw [hevents]
      simp
    exact (List.countP_eq_zero.mp hnone event hmem hevent).elim

theorem lastWord_step {continuous : Bool} {γ : Nat → Role} {t : List (Tasks.Entry SessionSig)}
    {c : Tasks SessionSig Stop Returned Inner Own} {i : Nat} {m : Choice} {o : Op}
    {k : o.Resp → Task Returned} {own own' : Own} {r : o.Resp} {s' : Inner}
    (hhushed : Hushed t c i m) (hroles : Tasks.Roles (protocol continuous) Role.Ended γ c)
    (h : LastWord γ c) (htask : c.tasks[i]? = some (.step o k, own)) (hmay : (γ i).may o)
    (hdoes : sessionDoes o m c.shared own = some (r, s', own')) :
    LastWord (Tasks.moved (protocol continuous) γ i o r) ⟨s', c.tasks.set i (k r, own')⟩ := by
  have hafter := sessionDoes_after hdoes
  have hsaid : c.shared.deaths ≠ 0 → ¬ o.Says := by
    intro hdead hsaid
    obtain ⟨role, hrole⟩ := Role.says_reader hmay hsaid
    cases h.alone i role hrole
    exact h.silent hdead _ _ htask (.inl hsaid)
  refine ⟨death_step h.death htask hmay hdoes, first_moved h.first i o r,
    alone_moved h.alone i o r, ?_, ?_⟩
  · intro hdead p own₀ hget
    by_cases h0 : 0 = i
    · subst h0
      rw [List.getElem?_set_self (List.getElem?_eq_some_iff.mp htask).1] at hget
      cases hget
      by_cases hbefore : c.shared.deaths = 0
      · have hemit : ∃ reason, o = .emit (.disconnected reason) := by
          by_contra hnot
          rw [hafter, deaths_after (fun reason heq => hnot ⟨reason, heq⟩)] at hdead
          exact hdead hbefore
        obtain ⟨reason, rfl⟩ := hemit
        have hann := Role.announcing_of_emits hmay
        have hf := (hroles 0 _ _ htask).2 r trivial
        obtain ⟨role, hrole⟩ := h.first
        rw [hrole] at hann hf
        cases role with
        | dying d => exact not_telling_of_dying hf
        | _ => exact hann.elim
      · refine not_telling_step (h.silent hbefore _ _ htask) (fun hbrings => ?_)
        cases o with
        | fill n =>
            cases r with
            | ok bytes =>
                simp only [sessionDoes] at hdoes
                split at hdoes
                · next bytes' harrives =>
                    exact hbefore (hhushed.reads n k own bytes' htask harrives)
                · cases hdoes
            | error e => exact hbrings
        | _ => exact hbrings
    · rw [List.getElem?_set_ne (Ne.symm h0)] at hget
      by_cases hbefore : c.shared.deaths = 0
      · have hemit : ∃ reason, o = .emit (.disconnected reason) := by
          by_contra hnot
          rw [hafter, deaths_after (fun reason heq => hnot ⟨reason, heq⟩)] at hdead
          exact hdead hbefore
        obtain ⟨reason, rfl⟩ := hemit
        exact hhushed.announced reason k own (Ne.symm h0) htask p own₀ hget
      · exact h.silent hbefore p own₀ hget
  · rw [hafter, after_events]
    cases o with
    | emit event =>
        refine last_emit ?_
        by_contra hdead
        by_cases hd : event.isDisconnected = true
        · cases event with
          | disconnected reason =>
              have hann := Role.announcing_of_emits hmay
              cases hc : c.shared.connected with
              | true => exact (h.death.alive hc).2 i hann
              | false =>
                  rcases h.death.dead hc with ⟨hnone, _⟩ | ⟨_, hquiet⟩
                  · exact hdead hnone
                  · exact hquiet i hann
          | _ => cases hd
        · exact hsaid hdead ⟨event, rfl, by simpa using hd⟩
    | _ =>
        simp only [Op.emits, List.append_nil]
        exact h.last

/-- **Disconnected is the last word**, in a hushed run: at most one is sent,
exactly one once the session is not connected and nobody is in the middle of
announcing it, and nothing after it. -/
theorem disconnected_last {z : Decompress} {width height : UInt16} {name : String}
    {continuous : Bool} {n m : Nat} {d : Decoders z} {calls : List Call}
    {t : List (Tasks.Entry SessionSig)} {c : Tasks SessionSig Stop Returned Inner Own}
    (hrun : Tasks.Runs sessionDoes Hushed
      (session width height name continuous n m d calls) t c) :
    c.shared.deaths ≤ 1 ∧
      (c.shared.connected = false →
        (∀ reason k own, (.step (.emit (.disconnected reason)) k, own) ∉ c.tasks) →
          c.shared.deaths = 1) ∧
      ∀ before reason after, c.shared.events = before ++ .disconnected reason :: after →
        after = [] := by
  have hstart : LastWord (sessionRoles continuous calls)
      (session width height name continuous n m d calls) :=
    ⟨death_start width height name continuous n m d calls, ⟨.idle, rfl⟩,
      (posted_start continuous calls).readers, fun h => absurd rfl h, fun before event after h => by
        cases before <;> cases h⟩
  obtain ⟨γ, hroles, hlast⟩ := hrun.joint (D := protocol continuous)
    (session_roles width height name n m d calls) hstart
    (fun t c γ i m o k l r s' l' hhushed hroles hj htask hmay hdoes =>
      ⟨sessionDoes_answered hdoes, lastWord_step hhushed hroles hj htask hmay hdoes⟩)
  refine ⟨?_, deaths_of_dead hlast.death hroles, fun before reason after heq =>
    hlast.last before _ after heq rfl⟩
  cases hc : c.shared.connected with
  | true =>
      have := (hlast.death.alive hc).1
      omega
  | false =>
      rcases hlast.death.dead hc with ⟨hnone, _⟩ | ⟨hone, _⟩ <;> omega

/-! ## With and without a message in hand -/

/-- A session with one call, a `close`. -/
def oneClose : Tasks SessionSig Stop Returned Inner Own :=
  session 1 1 "desktop" false 1 0 (Decoders.new stored) [.close]

/-- A step that is hushed whatever the reader has to say. -/
def hushed? (_t : List (Tasks.Entry SessionSig)) (c : Tasks SessionSig Stop Returned Inner Own)
    (i : Nat) (_m : Choice) : Bool :=
  match c.tasks[i]? with
  | some (.step (.emit (.disconnected _)) _, _) => i = 0
  | some (.step (.fill _) _, _) => c.shared.deaths = 0
  | _ => true

theorem hushed_of_check (t : List (Tasks.Entry SessionSig))
    (c : Tasks SessionSig Stop Returned Inner Own) (i : Nat) (m : Choice)
    (h : hushed? t c i m = true) : Hushed t c i m where
  announced reason k own hi htask := by
    rw [hushed?, htask] at h
    exact absurd (of_decide_eq_true h) hi
  reads n k own bytes htask _ := by
    rw [hushed?, htask] at h
    exact of_decide_eq_true h

/-- The reader finds the end of the stream, and a `close` comes too late. -/
theorem disconnected_last_eof :
    ∃ t c, Tasks.Runs sessionDoes Hushed oneClose t c ∧
      c.shared.events = [.disconnected (some (.io "early eof"))] ∧
      ∀ before reason after, c.shared.events = before ++ .disconnected reason :: after →
        after = [] := by
  have hend : (oneClose.record hushed? sessionDoes (moves 0 [[]] ++
      [(0, ⟨.error (.io "early eof"), false⟩)] ++ moves 0 [[], [], []] ++ moves 3 [[]]) []).map
        (fun e => e.2.shared.events) = some [.disconnected (some (.io "early eof"))] := by
    decide +kernel
  obtain ⟨⟨t, c⟩, hrecord, hevents⟩ := Option.map_eq_some_iff.mp hend
  have hrun := Tasks.runs_record hushed_of_check hrecord .start
  exact ⟨t, c, hrun, hevents, (disconnected_last hrun).2.2⟩

/-- A `close` while the reader has a bell in hand: the bell comes after the
Disconnected. -/
theorem not_disconnected_last_bell :
    ¬ ∀ t c before reason after, Tasks.Runs sessionDoes Tasks.Anyhow oneClose t c →
      c.shared.events = before ++ .disconnected reason :: after → after = [] := by
  intro hall
  have hend : (oneClose.record (fun _ _ _ _ => true) sessionDoes
      (moves 0 [[], [2], []] ++ moves 3 [[], [], []] ++ moves 0 [[]]) []).map
        (fun e => e.2.shared.events) = some [.disconnected none, .bell] := by
    decide +kernel
  obtain ⟨⟨t, c⟩, hrecord, hevents⟩ := Option.map_eq_some_iff.mp hend
  have hrun : Tasks.Runs sessionDoes Tasks.Anyhow oneClose t c :=
    Tasks.runs_record (fun _ _ _ _ _ => trivial) hrecord .start
  cases hall t c [] none [.bell] hrun hevents

/-! ## What a task that has swapped leaves behind -/

/-- The task has swapped `connected`, and what follows is still to be done or
is for good. -/
def Dying.Swapped : Dying → Prop
  | announce => True
  | signal => True
  | _ => False

def Role.Swapped : Role → Prop
  | reader (.dying d) => d.Swapped
  | writer (.dying d) => d.Swapped
  | writer .closing => True
  | writer .gone => True
  | closer d => d.Swapped
  | _ => False

theorem Dying.next_swapped {d : Dying} {o : Op} {r : o.Resp} (hmay : d.may o)
    (h : (d.next o r).Swapped) : o = .swapConnected ∨ d.Swapped := by
  cases d with
  | swap => exact .inl hmay
  | announce => exact .inr trivial
  | signal => exact .inr trivial
  | done => exact hmay.elim

/-- A task comes to this by the swap, or by a wait that the shutdown ends. -/
theorem Role.next_swapped {continuous : Bool} {role : Role} {o : Op} {r : o.Resp}
    (hmay : role.may o) (h : (role.next continuous o r).Swapped) :
    o = .swapConnected ∨ role.Swapped ∨ (o = .pop ∧ HEq r (none : Option Command)) := by
  have hdying : ∀ {d : Dying}, d.may o → (d.next o r).Swapped →
      o = .swapConnected ∨ d.Swapped := Dying.next_swapped
  cases role with
  | reader role =>
      cases hnext : role.next continuous o r with
      | dying d =>
          simp only [next, hnext] at h
          rcases Reading.next_dying hmay hnext with hswap | ⟨d₀, rfl, rfl⟩
          · exact .inl hswap
          · exact (hdying hmay h).imp_right .inl
      | _ =>
          simp only [next, hnext] at h
          exact h.elim
  | writer role =>
      cases hnext : role.next o r with
      | dying d =>
          simp only [next, hnext] at h
          rcases Writing.next_dying hmay hnext with hswap | ⟨d₀, rfl, rfl⟩
          · exact .inl hswap
          · exact (hdying hmay h).imp_right .inl
      | closing =>
          rcases Writing.next_closing hmay hnext with hswap | ⟨d, rfl⟩ | hpop
          · exact .inl hswap
          · cases d with
            | swap => exact .inl hmay
            | announce => exact .inr (.inl trivial)
            | signal => exact .inr (.inl trivial)
            | done => exact hmay.elim
          · exact .inr (.inr hpop)
      | gone =>
          cases role with
          | closing => exact .inr (.inl trivial)
          | gone => exact hmay.elim
          | ready =>
              cases (hmay : o = .pop)
              rcases r with _ | _ | _
              · cases hnext
              · next bytes =>
                  rcases Writing.left_cases (.write bytes) bytes bytes with h' | h' <;>
                    simp only [Writing.next, Writing.taken, h'] at hnext <;> cases hnext
              · cases hnext
          | asked incremental =>
              cases (hmay : o = .swapNeedsFull)
              cases hnext
          | sized incremental first =>
              cases (hmay : o = .size)
              simp only [Writing.next, Writing.left] at hnext
              split at hnext <;> cases hnext
          | writing command message rest =>
              cases (hmay : o = .pollWrite rest)
              rcases r with e | _ | n
              · cases hnext
              · cases hnext
              · rcases Writing.left_cases command message (rest.drop (n + 1)) with h' | h' <;>
                  simp only [Writing.next, Writing.offered, h'] at hnext <;> cases hnext
          | failed => exact .inl hmay
          | dying d =>
              simp only [Writing.next] at hnext
              generalize d.next o r = d' at hnext
              cases d' <;> cases hnext
      | _ =>
          simp only [next, hnext] at h
          exact h.elim
  | refresh incremental role => exact h.elim
  | sender command s => exact h.elim
  | closer d => exact (hdying hmay h).imp_right .inl

/-- A session that is shut down, whose queue is closed, or that a task has
found connected and is burying, is not connected. -/
structure Shut (γ : Nat → Role) (i : Inner) : Prop where
  shutdown : i.shutdown = true → i.connected = false
  closed : i.commandsOpen = false → i.connected = false
  swapped : ∀ j, (γ j).Swapped → i.connected = false

theorem shut_step {continuous : Bool} {γ : Nat → Role} {i : Nat} {o : Op} {m : Choice}
    {r : o.Resp} {s s' : Inner} {own own' : Own} (h : Shut γ s) (hmay : (γ i).may o)
    (hdoes : sessionDoes o m s own = some (r, s', own')) :
    Shut (Tasks.moved (protocol continuous) γ i o r) s' := by
  have hafter := sessionDoes_after hdoes
  have hstays : s.connected = false → s'.connected = false := fun hdead =>
    hafter ▸ connected_after hdead r
  refine ⟨fun hdown => ?_, fun hclosed => ?_, fun j hj => ?_⟩
  · by_cases hsignal : o = .signalShutdown
    · subst hsignal
      refine hstays (h.swapped i ?_)
      cases hrole : γ i with
      | reader role =>
          rw [hrole] at hmay
          cases role with
          | dying d =>
              cases d with
              | signal => trivial
              | announce =>
                  obtain ⟨_, hmay⟩ := hmay
                  cases hmay
              | done => exact hmay.elim
              | swap => cases hmay
          | plain => exact hmay.elim
          | begun update painted resized => exact hmay.elim
          | flagged update painted =>
              obtain ⟨_, _, hmay⟩ := hmay
              cases hmay
          | asking sending update painted =>
              cases sending with
              | sent accepted => exact hmay.elim
              | _ => cases hmay
          | _ => cases hmay
      | writer role =>
          rw [hrole] at hmay
          cases role with
          | dying d =>
              cases d with
              | signal => trivial
              | announce =>
                  obtain ⟨_, hmay⟩ := hmay
                  cases hmay
              | done => exact hmay.elim
              | swap => cases hmay
          | gone => exact hmay.elim
          | _ => cases hmay
      | refresh incremental role =>
          rw [hrole] at hmay
          cases role with
          | asking sending floor =>
              cases sending with
              | sent accepted => exact hmay.elim
              | _ => cases hmay
          | copied floor frame => exact hmay.elim
          | failed => exact hmay.elim
          | _ => cases hmay
      | sender command sending =>
          rw [hrole] at hmay
          cases sending with
          | sent accepted => exact hmay.elim
          | _ => cases hmay
      | closer d =>
          rw [hrole] at hmay
          cases d with
          | signal => trivial
          | announce =>
              obtain ⟨_, hmay⟩ := hmay
              cases hmay
          | done => exact hmay.elim
          | swap => cases hmay
    · rw [hafter, after_shutdown hsignal] at hdown
      exact hstays (h.shutdown hdown)
  · by_cases hclose : o = .closeCommands
    · subst hclose
      exact hstays (h.swapped i (by rw [Role.closes hmay]; trivial))
    · rw [hafter, after_commandsOpen hclose] at hclosed
      exact hstays (h.closed hclosed)
  · by_cases hji : j = i
    · subst hji
      rw [Tasks.moved_self] at hj
      rcases Role.next_swapped hmay hj with rfl | hswapped | ⟨rfl, hnone⟩
      · rw [hafter]
        rfl
      · exact hstays (h.swapped j hswapped)
      · cases hnone
        rcases pop_cases hdoes with ⟨_, _, _, hsome, _⟩ | ⟨hdown, _, _⟩
        · cases hsome
        · exact hstays (h.shutdown hdown)
    · rw [Tasks.moved_of_ne _ _ hji] at hj
      exact hstays (h.swapped j hj)

theorem shut_start (continuous : Bool) (calls : List Call) (width height : UInt16)
    (name : String) : Shut (sessionRoles continuous calls) (.new width height name) := by
  refine ⟨nofun, nofun, fun j hj => ?_⟩
  match j, hj with
  | 0, hj => exact hj.elim
  | 1, hj => exact hj.elim
  | 2, hj => exact hj.elim
  | j + 3, hj =>
      rcases sessionRoles_call continuous calls j with h | ⟨call, _, h⟩
      · rw [h] at hj
        exact hj.elim
      · rw [h] at hj
        cases call <;> exact hj.elim

end Bolide.Rfb
