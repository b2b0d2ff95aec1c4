/-
Bolide.Cli.DaemonTheorems — the daemon hears of the death of its desktop.

`wait_for_the_end` and `record` go by the events of the session: each
subscribes, and waits for a Disconnected. A receiver is handed only what is
sent after it subscribed, and only the last 256 events of that. `connect`
has returned long before either subscribes, so a desktop that dies while the
server is bound or the state file is written is never heard of.

`Stage` is where a task stands: before it subscribes, listening, or done
with its events. `Heeded` is the condition on a step under which no death is
missed, and `daemon_hears` says that it is enough.
-/
import Bolide.Cli.Daemon
import Bolide.Rfb.WakeupTheorems

namespace Bolide.Cli

open Lib Prog Bolide.Rfb

/-! ## A daemon that has missed a death -/

/-- The operation waits for an event. -/
def DaemonOp.Waits : DaemonOp → Prop
  | .wakeRecord => True
  | .wakeEnd => True
  | _ => False

/-- The session is dead, nobody is still to say so, and a task waits with no
Disconnected to receive. -/
def Orphaned (c : Served) : Prop :=
  c.base.shared.connected = false ∧
    (∀ reason k own, (.step (.emit (.disconnected reason)) k, own) ∉ c.base.tasks) ∧
    ∃ o k own, (.step o k, own) ∈ c.front.tasks ∧ o.Waits ∧
      ∀ reason, .disconnected reason ∉ own.unread c.base.shared

/-- The condition on a step: nothing is sent that pushes a Disconnected out
of a full receiver that is still to be waited on, and nobody subscribes once
a Disconnected has been sent. -/
structure Heeded (c : Served) (move : (Nat × Choice) ⊕ (Nat × Fate)) : Prop where
  sends : ∀ i m event k own, move = .inl (i, m) →
    c.base.tasks[i]? = some (.step (.emit event) k, own) →
      ∀ p own', (p, own') ∈ c.front.tasks → Comes DaemonOp.Waits p →
        ¬ Loses False own' c.base.shared event
  subscribes : ∀ i m k own, move = .inr (i, m) →
    c.front.tasks[i]? = some (.step .subscribe k, own) → c.base.shared.deaths = 0

/-! ## What a receiver holds -/

/-- The receiver holds the Disconnected, if one has been sent. -/
structure Hears (own : Own) (i : Inner) : Prop where
  subscribed : own.Subscribed i
  holds : i.deaths ≠ 0 → Has False own i

/-- What ends a wait whatever has painted is a Disconnected. -/
theorem exists_of_has {own : Own} {i : Inner} (h : Has False own i) :
    ∃ reason, .disconnected reason ∈ own.unread i := by
  obtain ⟨e, hmem, hwakes⟩ := h
  cases e with
  | disconnected reason => exact ⟨reason, hmem⟩
  | _ => exact hwakes.elim

/-- A new receiver has missed nothing if nothing has been sent. -/
theorem hears_subscribe {own : Own} {i : Inner} (h : i.deaths = 0) :
    Hears { own with next := some i.events.length } i where
  subscribed := ⟨_, rfl, Nat.le_refl _⟩
  holds hdeaths := absurd h hdeaths

/-- What the session does, a receiver that loses nothing hears of. -/
theorem Hears.after {own : Own} {i : Inner} (h : Hears own i) {o : Op} (r : o.Resp)
    (hkeeps : ∀ event, o = .emit event → ¬ Loses False own i event) :
    Hears own (o.after r i) where
  subscribed := h.subscribed.after
  holds hdeaths := by
    by_cases hsaid : ∃ reason, o = .emit (.disconnected reason)
    · obtain ⟨reason, rfl⟩ := hsaid
      have hwakes : Wakes False (.disconnected reason) := trivial
      exact has_sent h.subscribed hwakes r
    · rw [deaths_after (fun reason heq => hsaid ⟨reason, heq⟩)] at hdeaths
      exact has_after h.subscribed (h.holds hdeaths) hkeeps r

/-- Taking an event that is no Disconnected leaves the Disconnected there. -/
theorem Hears.receive {own own' : Own} {i : Inner} {got : Broadcast.Received ServerEvent}
    (h : Hears own i) (hreceive : receive i own = some (got, own'))
    (hother : ∀ reason, got ≠ .event (.disconnected reason)) : Hears own' i := by
  rw [Cli.receive] at hreceive
  obtain ⟨next, hnext, hreceive⟩ := Option.bind_eq_some_iff.mp hreceive
  obtain ⟨⟨got', next'⟩, hrecv, heq⟩ := Option.bind_eq_some_iff.mp hreceive
  cases heq
  have hunread : ∀ own₀ : Own, own₀.next = some next' →
      own₀.unread i = Broadcast.unread eventCapacity i.events next' := by
    intro own₀ h₀
    rw [Own.unread, h₀]
  refine ⟨⟨next', rfl, Broadcast.recv_le hrecv⟩, fun hdeaths => ?_⟩
  obtain ⟨x, hx, hwakes⟩ := h.holds hdeaths
  refine ⟨x, ?_, hwakes⟩
  rw [Own.unread, hnext] at hx
  rw [hunread _ rfl]
  cases got' with
  | lagged missed => rwa [Broadcast.unread_of_lagged hrecv]
  | event e =>
      simp only [Broadcast.unread_of_event hrecv, List.mem_cons] at hx
      rcases hx with rfl | hx
      · cases x with
        | disconnected reason => exact absurd rfl (hother reason)
        | _ => exact hwakes.elim
      · exact hx

/-! ## Where a task stands -/

/-- Where a task stands. -/
inductive Stage where
  | before
  | listening
  | done
  deriving DecidableEq

/-- The operation has nothing to do with events. -/
def DaemonOp.Plain : DaemonOp → Prop
  | .subscribe => False
  | .wakeRecord => False
  | .wakeEnd => False
  | _ => True

namespace Stage

def may : Stage → DaemonOp → Prop
  | before, o => o.Plain ∨ o = .subscribe
  | listening, o => o.Plain ∨ o.Waits
  | done, o => o.Plain

/-- Where a wakeup leaves a task that listens. -/
def woken (ended : Bool) : Stage := if ended = true then done else listening

def next : Stage → (o : DaemonOp) → o.Resp → Stage
  | before, .subscribe, _ => listening
  | listening, .wakeEnd, got => woken got.ends
  | listening, .wakeRecord, got => woken (got.take = .leave)
  | listening, .framebuffer, .error _ => done
  | listening, .writeFrame _, .error _ => done
  | stage, _, _ => stage

end Stage

/-- The discipline of the daemon's tasks. -/
def stages : Discipline DaemonSig Halt Stage where
  may := Stage.may
  answers _ _ _ := True
  next := Stage.next
  fails _ _ := True

/-- A program that has nothing to do with events. -/
abbrev Quiet {α : Type} (p : DaemonTask α) : Prop := p.Only DaemonOp.Plain (fun _ => True)

/-- Before a task subscribes, and once it is done, what has nothing to do with
events leaves it there. -/
theorem Stage.next_plain {stage : Stage} {o : DaemonOp} (hstage : stage ≠ .listening)
    (ho : o.Plain) (r : o.Resp) : stage.next o r = stage := by
  cases stage with
  | before =>
      cases o with
      | subscribe => exact False.elim ho
      | _ => rfl
  | listening => exact absurd rfl hstage
  | done => cases o <;> rfl

theorem Quiet.follows {α : Type} {p : DaemonTask α} (h : Quiet p) {stage : Stage}
    (hstage : stage ≠ .listening) : Follows stages stage p (fun _ stage' => stage' = stage) := by
  have hmay : ∀ o : DaemonOp, o.Plain → stage.may o := by
    intro o ho
    cases stage with
    | before => exact .inl ho
    | listening => exact absurd rfl hstage
    | done => exact ho
  exact (follows_of_only (D := stages) hmay (fun o r ho => Stage.next_plain hstage ho r)
    (fun _ => trivial) h).mono (fun _ _ hq => hq.2)

/-- A task that is done with its events waits for none. -/
theorem not_comes_of_done {α : Type} {p : DaemonTask α} {Q : α → Stage → Prop}
    (h : Follows stages .done p Q) : ¬ Comes DaemonOp.Waits p := by
  intro hcomes
  induction hcomes with
  | @here o k ho =>
      have hplain : o.Plain := h.1
      cases o with
      | wakeRecord => exact hplain
      | wakeEnd => exact hplain
      | _ => exact ho
  | @later o k r _ ih =>
      refine ih ?_
      have hnext : Stage.done.next o r = .done := Stage.next_plain (by decide) h.1 r
      rw [← hnext]
      exact h.2 r trivial

/-! ## Every task keeps to its stages -/

theorem quiet_orFailure {outcome : Except String Unit} {what : String} {cleanup : DaemonTask Unit}
    (h : Quiet cleanup) : Quiet (orFailure outcome what cleanup) := by
  cases outcome with
  | ok u => trivial
  | error e => exact h.bind (fun _ _ => trivial)

theorem quiet_startRecording (args : ConnectArgs) : Quiet (startRecording args) := by
  unfold startRecording
  split
  · trivial
  · refine ⟨trivial, fun size => ⟨trivial, fun started => ?_⟩⟩
    have hfail : ∀ what, Quiet (orFailure started what (pure ())) := fun _ => quiet_orFailure trivial
    exact (hfail _).bind (fun _ _ => ⟨trivial, fun _ => trivial⟩)

theorem quiet_dropRecording (args : ConnectArgs) : Quiet (dropRecording args) := by
  unfold dropRecording
  split
  · trivial
  · exact ⟨trivial, fun _ => trivial⟩

theorem quiet_finishRecording (args : ConnectArgs) : Quiet (finishRecording args) := by
  unfold finishRecording
  split
  · trivial
  · exact ⟨trivial, fun _ => ⟨trivial, fun _ => trivial⟩⟩

theorem quiet_writeOne (canvas : Geometry) : Quiet (writeOne canvas) := by
  refine ⟨trivial, fun frame => ?_⟩
  cases frame with
  | error e => trivial
  | ok frame =>
      cases hfit : fit frame canvas with
      | none =>
          simp only [Prog.bind, hfit]
          trivial
      | some rgba =>
          simp only [Prog.bind, hfit]
          exact ⟨trivial, fun _ => trivial⟩

theorem waitLoop_follows : ∀ n,
    Follows stages .listening (waitLoop n) (fun _ stage => stage = .done)
  | 0 => trivial
  | n + 1 => by
      refine follows_perform (.inr trivial) (fun woken _ => ?_)
      show Follows stages (Stage.woken woken.ends) _ _
      cases hends : woken.ends with
      | true =>
          rw [if_pos rfl]
          rfl
      | false =>
          rw [if_neg (by simp)]
          exact waitLoop_follows n

theorem serveForeground_follows (n : Nat) (args : ConnectArgs) :
    Follows stages .before (serveForeground n args) (fun _ _ => True) := by
  have hbefore : ∀ {α β : Type} {p : DaemonTask α} {f : α → DaemonTask β} {Q : β → Stage → Prop},
      Quiet p → (∀ a, Follows stages .before (f a) Q) → Follows stages .before (p >>= f) Q :=
    fun hp hf => follows_bind (hp.follows (by decide)) (fun a stage hstage => by
      subst hstage
      exact hf a)
  refine hbefore (quiet_startRecording args) (fun _ => ?_)
  refine follows_perform (.inl trivial) (fun bound _ => ?_)
  refine hbefore (quiet_orFailure (quiet_dropRecording args)) (fun _ => ?_)
  refine follows_perform (.inl trivial) (fun saved _ => ?_)
  refine hbefore (quiet_orFailure (quiet_dropRecording args)) (fun _ => ?_)
  refine follows_perform (.inr rfl) (fun _ _ => ?_)
  refine follows_bind (waitLoop_follows n) (fun _ stage hstage => ?_)
  subst hstage
  refine Follows.mono (Quiet.follows ?_ (by decide)) (fun _ _ _ => trivial)
  exact (quiet_finishRecording args).bind (fun _ _ =>
    ⟨trivial, fun _ => ⟨trivial, fun _ => ⟨trivial, fun _ => trivial⟩⟩⟩)

/-- Where writing one frame leaves a task that listens. -/
theorem writeOne_follows (canvas : Geometry) :
    Follows stages .listening (writeOne canvas) (fun written stage =>
      stage = match written with
        | .ok () => .listening
        | .error _ => .done) := by
  refine follows_perform (.inl trivial) (fun frame _ => ?_)
  cases frame with
  | error e => rfl
  | ok frame =>
      cases hfit : fit frame canvas with
      | none =>
          simp only [hfit]
          trivial
      | some rgba =>
          simp only [hfit]
          refine ⟨.inl trivial, fun written _ => ?_⟩
          cases written <;> rfl

theorem recordLoop_follows (canvas : Geometry) : ∀ n frames,
    Follows stages .listening (recordLoop canvas n frames) (fun _ stage => stage = .done)
  | 0, _ => trivial
  | n + 1, frames => by
      refine follows_perform (.inr trivial) (fun woken _ => ?_)
      show Follows stages (Stage.woken (woken.take = .leave)) _ _
      cases htake : woken.take with
      | again => exact recordLoop_follows canvas n frames
      | leave => rfl
      | frame =>
          refine follows_bind (writeOne_follows canvas) (fun written stage hstage => ?_)
          subst hstage
          cases written with
          | error e => rfl
          | ok u => exact recordLoop_follows canvas n (frames + 1)

theorem quiet_atLeastOne (canvas : Geometry) (ended : Nat × Option String) :
    Quiet (atLeastOne canvas ended) := by
  unfold atLeastOne
  split
  · refine (quiet_writeOne canvas).bind (fun written _ => ?_)
    cases written <;> trivial
  · trivial

theorem record_follows (n : Nat) (canvas : Geometry) :
    Follows stages .before (record n canvas) (fun _ stage => stage = .done) := by
  refine follows_perform (.inr rfl) (fun _ _ => ?_)
  refine follows_bind (recordLoop_follows canvas n 0) (fun ended stage hstage => ?_)
  subst hstage
  refine Quiet.follows ((quiet_atLeastOne canvas ended).bind (fun ended' _ => ?_)) (by decide)
  obtain ⟨frames, failed⟩ := ended'
  refine ⟨trivial, fun finished => ?_⟩
  cases failed <;> trivial

theorem recordTask_follows (n : Nat) :
    Follows stages .before (recordTask n) (fun _ _ => True) := by
  refine follows_perform (.inl trivial) (fun canvas _ => ?_)
  refine follows_bind (record_follows n canvas) (fun result stage hstage => ?_)
  subst hstage
  exact ⟨trivial, fun _ _ => trivial⟩

/-! ## The invariant -/

/-- A task that listens, and may still wait, hears of the death. -/
def Listening (γ : Nat → Stage) (c : Served) : Prop :=
  ∀ j p own, c.front.tasks[j]? = some (p, own) → γ j = .listening → Comes DaemonOp.Waits p →
    Hears own c.base.shared

/-- Every task of the daemon keeps to its stages. -/
abbrev Staged (γ : Nat → Stage) (c : Served) : Prop :=
  Tasks.Roles stages (fun _ _ => True) γ c.front

/-- An operation of the session, heeded. -/
theorem listening_base {c : Served} {γ : Nat → Stage} {i : Nat} {m : Choice} {o : Op}
    {k : o.Resp → Rfb.Task Returned} {own own' : Own} {r : o.Resp} {s' : Inner}
    (hheeded : Heeded c (.inl (i, m))) (h : Listening γ c)
    (htask : c.base.tasks[i]? = some (.step o k, own))
    (hdoes : sessionDoes o m c.base.shared own = some (r, s', own')) :
    Listening γ { c with base := ⟨s', c.base.tasks.set i (k r, own')⟩ } := by
  intro j p own₂ hget hstage hcomes
  rw [show s' = o.after r c.base.shared from sessionDoes_after hdoes]
  refine (h j p own₂ hget hstage hcomes).after r (fun event heq => ?_)
  subst heq
  exact hheeded.sends i m event k own rfl htask p own₂ (List.mem_of_getElem? hget) hcomes

/-- What has nothing to do with events leaves the receiver alone. -/
theorem own_of_plain {i : Inner} {o : DaemonOp} {m : Fate} {d d' : Daemon} {own own' : Own}
    {r : o.Resp} (ho : o.Plain) (hdoes : daemonDoes i o m d own = some (r, d', own')) :
    own' = own := by
  cases o with
  | subscribe => exact False.elim ho
  | wakeRecord => exact False.elim ho
  | wakeEnd => exact False.elim ho
  | spawned =>
      obtain ⟨canvas, _, heq⟩ := Option.map_eq_some_iff.mp hdoes
      cases heq
      rfl
  | join =>
      obtain ⟨result, _, heq⟩ := Option.map_eq_some_iff.mp hdoes
      cases heq
      rfl
  | _ =>
      cases hdoes
      rfl

/-- A wait of `record` that goes on has heard of no death. -/
theorem hears_wakeRecord {i : Inner} {m : Fate} {d d' : Daemon} {own own' : Own} {got : Woken}
    (hears : Hears own i) (hgoes : got.take ≠ .leave)
    (hdoes : daemonDoes i .wakeRecord m d own = some (got, d', own')) : Hears own' i := by
  simp only [daemonDoes] at hdoes
  split at hdoes
  · cases hdoes
    exact absurd rfl hgoes
  · split at hdoes
    · next received own₁ hreceive =>
        cases hdoes
        refine hears.receive hreceive (fun reason heq => ?_)
        subst heq
        exact hgoes rfl
    · split at hdoes
      · cases hdoes
        exact hears
      · cases hdoes

/-- A wait for the end that goes on has heard of no death. -/
theorem hears_wakeEnd {i : Inner} {m : Fate} {d d' : Daemon} {own own' : Own} {got : EndEvent}
    (hears : Hears own i) (hgoes : got.ends = false)
    (hdoes : daemonDoes i .wakeEnd m d own = some (got, d', own')) : Hears own' i := by
  simp only [daemonDoes] at hdoes
  split at hdoes
  · cases hdoes
    cases hgoes
  · cases hdoes
    cases hgoes
  · obtain ⟨⟨received, own₁⟩, hreceive, heq⟩ := Option.map_eq_some_iff.mp hdoes
    cases heq
    refine hears.receive hreceive (fun reason heq => ?_)
    subst heq
    cases hgoes

/-- What an operation leaves a task that listens with. -/
theorem hears_own {i : Inner} {stage : Stage} {o : DaemonOp} {m : Fate} {d d' : Daemon}
    {own own' : Own} {r : o.Resp} (hears : stage = .listening → Hears own i)
    (hsubscribe : o = .subscribe → i.deaths = 0) (hmay : stage.may o)
    (hnext : stage.next o r = .listening) (hdoes : daemonDoes i o m d own = some (r, d', own')) :
    Hears own' i := by
  cases stage with
  | before =>
      rcases hmay with hplain | rfl
      · rw [Stage.next_plain (by decide) hplain] at hnext
        cases hnext
      · cases hdoes
        exact hears_subscribe (hsubscribe rfl)
  | listening =>
      rcases hmay with hplain | hwaits
      · rw [own_of_plain hplain hdoes]
        exact hears rfl
      · cases o with
        | wakeRecord =>
            refine hears_wakeRecord (hears rfl) (fun hleave => ?_) hdoes
            simp [Stage.next, Stage.woken, hleave] at hnext
        | wakeEnd =>
            refine hears_wakeEnd (hears rfl) ?_ hdoes
            simpa [Stage.next, Stage.woken] using hnext
        | _ => exact False.elim hwaits
  | done =>
      rw [Stage.next_plain (by decide) hmay] at hnext
      cases hnext

/-- An operation of the daemon, heeded. -/
theorem listening_front {c : Served} {γ : Nat → Stage} {i : Nat} {m : Fate} {o : DaemonOp}
    {k : o.Resp → DaemonTask Unit} {own own' : Own} {r : o.Resp} {d' : Daemon}
    (hheeded : Heeded c (.inr (i, m))) (h : Listening γ c)
    (htask : c.front.tasks[i]? = some (.step o k, own)) (hmay : (γ i).may o)
    (hdoes : daemonDoes c.base.shared o m c.front.shared own = some (r, d', own')) :
    Listening (Tasks.moved stages γ i o r)
      { c with front := ⟨d', c.front.tasks.set i (k r, own')⟩ } := by
  intro j p own₂ hget hstage hcomes
  by_cases hji : j = i
  · subst hji
    rw [List.getElem?_set_self (List.getElem?_eq_some_iff.mp htask).1] at hget
    cases hget
    rw [Tasks.moved_self] at hstage
    refine hears_own (fun hlistening => h j _ _ htask hlistening (.later r hcomes))
      (fun heq => ?_) hmay hstage hdoes
    subst heq
    exact hheeded.subscribes j m k own rfl htask
  · rw [List.getElem?_set_ne (Ne.symm hji)] at hget
    rw [Tasks.moved_of_ne stages γ hji] at hstage
    exact h j p own₂ hget hstage hcomes

theorem served_staged (base : Tasks SessionSig Stop Returned Inner Own) (n : Nat)
    (args : ConnectArgs) : Staged (fun _ => .before) (served base n args) := by
  intro j p own hget
  match j, hget with
  | 0, hget =>
      cases hget
      exact serveForeground_follows n args
  | 1, hget =>
      cases hget
      exact recordTask_follows n
  | j + 2, hget => cases hget

/-- **The daemon never outlives its desktop silently**, in a run whose steps
all meet the condition: whatever the session does, and whenever it dies, no
task of the daemon waits for an event of a dead session without the
Disconnected to receive. -/
theorem daemon_hears {z : Decompress} {width height : UInt16} {name : String} {continuous : Bool}
    {n m rounds : Nat} {d : Decoders z} {calls : List Call} {args : ConnectArgs} {c : Served}
    (hrun : Beside.Reaches sessionDoes daemonDoes Heeded
      (served (session width height name continuous n m d calls) rounds args) c) :
    ¬ Orphaned c := by
  intro ⟨hdead, hsaid, o, k, own, hmem, hwaits, hmissed⟩
  obtain ⟨t, hbase⟩ := hrun.base
  obtain ⟨γ, hroles, hdeath⟩ := hbase.joint (D := protocol continuous)
    (session_roles width height name n m d calls)
    (death_start width height name continuous n m d calls)
    (fun t c γ i m o k l r s' l' _ _ hj htask hmay hdoes =>
      ⟨sessionDoes_answered hdoes, death_step hj htask hmay hdoes⟩)
  have hdeaths := deaths_of_dead hdeath hroles hdead hsaid
  obtain ⟨γ', hstaged, hlistening⟩ := hrun.joint (D := stages) (J := Listening)
    (served_staged _ rounds args) (fun j p own _ hstage _ => by cases hstage)
    (fun c γ i m o k l r s' l' _ hheeded _ hj htask hdoes =>
      listening_base hheeded hj htask hdoes)
    (fun c γ i m o k l r s' l' _ hheeded _ hj htask hmay hdoes =>
      ⟨trivial, listening_front hheeded hj htask hmay hdoes⟩)
  obtain ⟨j, hget⟩ := List.mem_iff_getElem?.mp hmem
  have hf := hstaged j _ _ hget
  have hstage : γ' j = .listening := by
    cases hstage : γ' j with
    | before =>
        rw [hstage] at hf
        rcases hf.1 with hplain | rfl
        · cases o <;> first | exact False.elim hwaits | exact False.elim hplain
        · exact False.elim hwaits
    | listening => rfl
    | done =>
        rw [hstage] at hf
        exact absurd (Comes.here hwaits) (not_comes_of_done hf)
  obtain ⟨reason, hreason⟩ := exists_of_has ((hlistening j _ _ hget hstage (.here hwaits)).holds
    (by omega))
  exact hmissed reason hreason

/-! ## A desktop that dies early, and one that dies late -/

/-- A session with no calls. -/
def desktop : Tasks SessionSig Stop Returned Inner Own :=
  session 1 1 "desktop" false 1 0 (Decoders.new stored) []

/-- A daemon that records nothing. -/
def oneDaemon : Served := served desktop 1 ⟨"127.0.0.1:0", none⟩

/-- The reader finds the end of the stream, and says so. -/
def eof : List (Nat × Choice) :=
  moves 0 [[]] ++ [(0, ⟨.error (.io "early eof"), false⟩)] ++ moves 0 [[], [], []]

def dies : List ((Nat × Choice) ⊕ (Nat × Fate)) := eof.map .inl

/-- The server is bound, the state file saved, and the wait begins. -/
def starts : List ((Nat × Choice) ⊕ (Nat × Fate)) := List.replicate 3 (.inr (0, .plain))

/-- The task's next operation is an announcement of death. -/
def announces? : Rfb.Task Returned → Bool
  | .step (.emit (.disconnected _)) _ => true
  | _ => false

/-- The task waits for the end. -/
def waits? : DaemonTask Unit → Bool
  | .step .wakeEnd _ => true
  | _ => false

/-- A check for a daemon that waits for an end that has come. -/
def orphaned? (c : Served) : Bool :=
  !c.base.shared.connected && c.base.tasks.all (fun task => !announces? task.1) &&
    c.front.tasks.any (fun task => waits? task.1 && decide (task.2.unread c.base.shared = []))

theorem orphaned_of_check {c : Served} (h : orphaned? c = true) : Orphaned c := by
  simp only [orphaned?, Bool.and_eq_true, Bool.not_eq_true', List.all_eq_true,
    List.any_eq_true, decide_eq_true_eq] at h
  obtain ⟨⟨hdead, hsaid⟩, ⟨p, own⟩, hmem, hwaits, hnothing⟩ := h
  refine ⟨hdead, fun reason k own₂ hmem₂ => (by cases hsaid _ hmem₂), ?_⟩
  unfold waits? at hwaits
  split at hwaits
  · next k heq =>
      cases (heq : p = .step .wakeEnd k)
      refine ⟨.wakeEnd, k, own, hmem, trivial, fun reason hreason => ?_⟩
      rw [show own.unread c.base.shared = [] from hnothing] at hreason
      cases hreason
  · cases hwaits

/-- A step that is heeded because no receiver is full, or nothing has been sent. -/
def heeded? (c : Served) : (Nat × Choice) ⊕ (Nat × Fate) → Bool
  | .inl (i, _) => match c.base.tasks[i]? with
      | some (.step (.emit _) _, _) =>
          c.front.tasks.all (fun task => (task.2.unread c.base.shared).length < eventCapacity)
      | _ => true
  | .inr (i, _) => match c.front.tasks[i]? with
      | some (.step .subscribe _, _) => c.base.shared.deaths = 0
      | _ => true

theorem heeded_of_check (c : Served) (move : (Nat × Choice) ⊕ (Nat × Fate))
    (h : heeded? c move = true) : Heeded c move where
  sends i m event k own hmove htask p own' hmem _ hloses := by
    subst hmove
    simp only [heeded?, htask] at h
    have hroom := of_decide_eq_true (List.all_eq_true.mp h _ hmem)
    rw [hloses.1] at hroom
    exact Nat.lt_irrefl _ hroom
  subscribes i m k own hmove htask := by
    subst hmove
    simp only [heeded?, htask] at h
    exact of_decide_eq_true h

/-- A desktop that dies while its daemon waits for the end. -/
theorem daemon_hears_late :
    ∃ c, Beside.Reaches sessionDoes daemonDoes Heeded oneDaemon c ∧
      c.base.shared.connected = false ∧ c.base.shared.deaths = 1 ∧ ¬ Orphaned c := by
  have hend : (oneDaemon.runWhile heeded? sessionDoes daemonDoes (starts ++ dies)).map
      (fun c => (c.base.shared.connected, c.base.shared.deaths)) = some (false, 1) := by
    decide +kernel
  obtain ⟨c, hrun, heq⟩ := Option.map_eq_some_iff.mp hend
  obtain ⟨hdead, hdeaths⟩ := Prod.mk.inj heq
  have hreach := Beside.reaches_runWhile heeded_of_check hrun .start
  exact ⟨c, hreach, hdead, hdeaths, daemon_hears hreach⟩

/-- A desktop that dies before its daemon waits: the daemon waits for ever. -/
theorem not_daemon_hears_early :
    ¬ ∀ c, Beside.Reaches sessionDoes daemonDoes (fun _ _ => True) oneDaemon c →
      ¬ Orphaned c := by
  intro hall
  have hend : (oneDaemon.runWhile (fun _ _ => true) sessionDoes daemonDoes (dies ++ starts)).map
      orphaned? = some true := by
    decide +kernel
  obtain ⟨c, hrun, horphaned⟩ := Option.map_eq_some_iff.mp hend
  exact hall c (Beside.reaches_runWhile (fun _ _ _ => trivial) hrun .start)
    (orphaned_of_check horphaned)

end Bolide.Cli
