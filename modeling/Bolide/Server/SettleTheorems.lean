/-
Bolide.Server.SettleTheorems — a screenshot after input settles first.

The record of the last input is one slot, and the screenshot that takes it is
the only one that waits. Where whoever finds the slot empty finds every input
settled already, each screenshot asks for its frame no earlier than
`input_settle` after every input that was finished before it began.

`Watch` is what a task is to this: it has not taken the record yet, or it has
and is on its way to its `refresh`.
-/
import Bolide.Rfb.InflateTheorems
import Bolide.Server.Turns

namespace Bolide.Server

open Lib Prog Bolide.Rfb

/-! ## What the law says -/

/-- How far a step moves the clock. -/
def ticks : Tasks.Entry ServeSig → Duration
  | ⟨_, .inl (.inr (.tick d)), _⟩ => d
  | _ => 0

/-- The clock after what has happened. -/
def clock (time : Duration) (t : List (Tasks.Entry ServeSig)) : Duration :=
  t.foldl (fun now e => now + ticks e) time

/-- The handler of task `i` stamps its input: its last event has gone out. -/
abbrev stamps (i : Nat) : Tasks.Entry ServeSig := ⟨i, .inl (.inr .stampInput), ()⟩

/-- Task `j` begins its `fresh_frame`. -/
abbrev taking (j : Nat) (lastInput : Option Duration) : Tasks.Entry ServeSig :=
  ⟨j, .inl (.inr .takeLastInput), lastInput⟩

/-- Task `j` calls `refresh`. -/
abbrev refreshes (j : Nat) : Tasks.Entry ServeSig := ⟨j, .inl (.inl .subscribe), ()⟩

/-- All input that was finished in what happened has settled at `now`. -/
def Settled (config : HandlerConfig) (time now : Duration) (t : List (Tasks.Entry ServeSig)) :
    Prop :=
  ∀ i before after, t = before ++ stamps i :: after → clock time before + config.inputSettle ≤ now

/-- Every screenshot calls `refresh` when all input that was finished before
it began has settled. -/
def SettlesFirst (config : HandlerConfig) (time : Duration) (t : List (Tasks.Entry ServeSig)) :
    Prop :=
  ∀ j lastInput before between after,
    t = before ++ taking j lastInput :: between ++ refreshes j :: after →
    Settled config time (clock time (before ++ taking j lastInput :: between)) before

/-- The condition on a step: a screenshot that finds no record of input finds
all input settled. -/
structure Unshared (config : HandlerConfig) (time : Duration) (t : List (Tasks.Entry ServeSig))
    (c : Tasks ServeSig Left Reply Desk Own) (i : Nat) (_m : Choice) : Prop where
  empty : ∀ k own, c.tasks[i]? = some (.step (.inl (.inr .takeLastInput)) k, own) →
    c.shared.1.2.lastInput = none → Settled config time c.shared.1.2.time t

/-! ## The clock -/

theorem clock_append (time : Duration) (t t' : List (Tasks.Entry ServeSig)) :
    clock time (t ++ t') = clock (clock time t) t' := List.foldl_append

theorem clock_snoc (time : Duration) (t : List (Tasks.Entry ServeSig)) (e : Tasks.Entry ServeSig) :
    clock time (t ++ [e]) = clock time t + ticks e := by
  rw [clock_append]
  rfl

/-- The clock is not turned back. -/
theorem clock_le (time : Duration) (t : List (Tasks.Entry ServeSig)) : time ≤ clock time t := by
  induction t using List.reverseRecOn with
  | nil => exact Nat.le_refl _
  | append_singleton t e ih =>
      rw [clock_snoc]
      exact Nat.le_add_right_of_le ih

theorem Settled.mono {config : HandlerConfig} {time now later : Duration}
    {t : List (Tasks.Entry ServeSig)} (h : Settled config time now t) (hlater : now ≤ later) :
    Settled config time later t :=
  fun i before after ht => (h i before after ht).trans hlater

/-- Input is settled when what was finished since is. -/
theorem Settled.snoc {config : HandlerConfig} {time now : Duration}
    {t : List (Tasks.Entry ServeSig)} {e : Tasks.Entry ServeSig} (h : Settled config time now t)
    (he : ∀ i, e = stamps i → clock time t + config.inputSettle ≤ now) :
    Settled config time now (t ++ [e]) := by
  intro i before after ht
  rcases Tasks.snoc_split ht with ⟨_, rfl, he'⟩ | ⟨rest, _, ht⟩
  · exact he i he'
  · exact h i before rest ht

/-- What is finished by now is settled `input_settle` from now. -/
theorem settled_from_now (config : HandlerConfig) (time : Duration)
    (t : List (Tasks.Entry ServeSig)) :
    Settled config time (clock time t + config.inputSettle) t := by
  intro i before after ht
  rw [ht, clock_append]
  exact Nat.add_le_add_right (clock_le _ _) _

/-! ## What a task is to a screenshot -/

/-- A task before it takes the record, and on its way from there to its
`refresh`: until when the input settles, and until when the task sleeps. -/
inductive Watch where
  | early
  | took (settled : Duration)
  | measured (settled now : Duration)
  | dozing (deadline : Duration)
  | rested

namespace Watch

def may : Watch → ServeSig.Op → Prop
  | early, _ => True
  | took _, o => o = .inl (.inr .now)
  | measured _ _, o => o = .inl (.inr .now)
  | dozing deadline, o => o = .inl (.inr (.sleepUntil deadline))
  | rested, o => o ≠ .inl (.inr .takeLastInput)

/-- What a screenshot has to wait for. -/
def after (settle : Duration) : Option Duration → Watch
  | none => rested
  | some at' => took (at' + settle)

/-- A screenshot that has read the clock. -/
def judged (settled now : Duration) : Watch :=
  if now < settled then measured settled now else rested

/-- A sleep that has read the clock. -/
def slept (settled now now' : Duration) : Watch := dozing (now' + (settled - now))

def next (settle : Duration) : Watch → (o : ServeSig.Op) → ServeSig.Resp o → Watch
  | early, .inl (.inr .takeLastInput), lastInput => after settle lastInput
  | took settled, .inl (.inr .now), now => judged settled now
  | measured settled now, .inl (.inr .now), now' => slept settled now now'
  | dozing _, .inl (.inr (.sleepUntil _)), _ => rested
  | w, _, _ => w

end Watch

/-- How the tasks of a server come to their screenshots. -/
def watching (settle : Duration) : Discipline ServeSig Left Watch where
  may := Watch.may
  answers _ _ _ := True
  next := Watch.next settle
  fails _ _ := True

/-- The operation takes no record. -/
def Leaves : ServeSig.Op → Prop := fun o => o ≠ .inl (.inr .takeLastInput)

section Tasks

variable {d : Duration} {α : Type}

/-- What takes no record is early, or rested, as long as it lasts. -/
theorem leaves_follows {p : HandlerTask α} (h : p.Only Leaves (fun _ => True)) {w : Watch}
    (hw : w = .early ∨ w = .rested) :
    Follows (watching d) w p (fun _ w' => w' = w) := by
  refine (follows_of_only ?_ ?_ (fun _ => trivial) h).mono (fun _ _ h => h.2)
  · intro o ho
    rcases hw with rfl | rfl
    · trivial
    · exact ho
  · intro o r ho
    rcases hw with rfl | rfl
    · show Watch.next d .early o r = .early
      unfold Watch.next
      split
      · exact absurd rfl ho
      · next heq => cases heq
      · next heq => cases heq
      · next heq => cases heq
      · rfl
    · rfl

/-- What the session does takes no record. -/
theorem session_leaves (p : Rfb.Task α) :
    p.Only (fun o => Leaves (.inl (.inl o))) (fun _ => True) := by
  induction p with
  | ret a => trivial
  | fail e => trivial
  | step o k ih => exact ⟨by simp [Leaves], ih⟩

theorem serve_leaves {p : ServerTask α} (h : p.Only (fun o => Leaves (.inl o)) (fun _ => True)) :
    (serve p).Only Leaves (fun _ => True) := by
  refine h.call.bind (fun ended _ => ?_)
  cases ended <;> trivial

theorem call_leaves (p : Rfb.Task α) :
    (p.call : ServerTask (Except Stop α)).Only (fun o => Leaves (.inl o)) (fun _ => True) :=
  Only.mono (Only.call (P := fun o => Leaves (.inl o)) (session_leaves p)) (fun _ _ => trivial)

theorem hand_leaves (o : HandsOp) : (hand o).Only Leaves (fun _ => True) :=
  ⟨by simp [Leaves], fun _ => trivial⟩

theorem suspended_leaves : suspended.Only Leaves (fun _ => True) := by
  refine ⟨by simp [Leaves], fun gone => ?_⟩
  cases (gone : Bool) with
  | false => trivial
  | true => exact ⟨by simp [Leaves], fun _ => trivial⟩

theorem awaiting_leaves {p : ServerTask α}
    (h : p.Only (fun o => Leaves (.inl o)) (fun _ => True)) :
    (awaiting p).Only Leaves (fun _ => True) :=
  suspended_leaves.bind (fun _ _ => (serve_leaves h).bind (fun _ _ =>
    suspended_leaves.bind (fun _ _ => trivial)))

theorem method_leaves (p : Rfb.Task Unit) :
    (method p).Only (fun o => Leaves (.inl o)) (fun _ => True) := by
  refine (call_leaves p).bind (fun ended _ => ?_)
  rcases ended with (_ | _ | _) | _ <;> trivial

theorem sleep_leaves (span : Duration) : (sleep span).Only (fun o => Leaves (.inl o)) (fun _ => True) :=
  ⟨by simp [Leaves], fun _ => ⟨by simp [Leaves], fun _ => trivial⟩⟩

theorem performOp_leaves (op : RfbOp) : (performOp op).Only Leaves (fun _ => True) := by
  cases op with
  | pointer x y buttons =>
      refine (awaiting_leaves (method_leaves _)).bind (fun sent _ => ?_)
      cases sent with
      | error e => trivial
      | ok a => exact ⟨by simp [Leaves], fun _ => trivial⟩
  | key keysym down => exact awaiting_leaves (method_leaves _)
  | sleep ms => exact (awaiting_leaves (sleep_leaves _)).bind (fun _ _ => trivial)

theorem execute_leaves (ops : List RfbOp) : (execute ops).Only Leaves (fun _ => True) := by
  induction ops with
  | nil => trivial
  | cons op ops ih =>
      refine (performOp_leaves op).bind (fun done _ => ?_)
      cases done with
      | error e => trivial
      | ok a => exact ih

theorem stamp_leaves (ops : List RfbOp) : (stamp ops).Only Leaves (fun _ => True) := by
  unfold stamp
  split
  · exact ⟨by simp [Leaves], fun _ => trivial⟩
  · trivial

/-! ## A screenshot -/

/-- A screenshot sleeps until the input it took the record of has settled. -/
theorem settle_watched (config : HandlerConfig) (lastInput : Option Duration) :
    Follows ((watching config.inputSettle).inl (fun _ (_ : Refusal) => True))
      (Watch.after config.inputSettle lastInput) (settle config.toServerConfig lastInput)
      (fun _ w => w = .rested) := by
  cases lastInput with
  | none => rfl
  | some at' =>
      refine ⟨rfl, fun (now : Duration) _ => ?_⟩
      show Follows _ (Watch.judged (at' + config.inputSettle) now)
        (if now < at' + config.inputSettle then sleep (at' + config.inputSettle - now)
          else pure ()) _
      unfold Watch.judged
      split
      · exact ⟨rfl, fun _ _ => ⟨rfl, fun _ _ => rfl⟩⟩
      · rfl

/-- What a screenshot does once it has rested takes no record. -/
theorem answer_leaves (config : ServerConfig) (n : Nat) (lastInput : Option Duration) :
    Only (fun o => Leaves (.inl o)) (fun _ => True) (do
      let painted ← ses .painted
      if painted = false then
        let frame ← (refresh n false config.frameTimeout).call
        answerFresh frame
      else
        let wait := min config.frameTimeout
          (if lastInput.isSome then afterInputWait else incrementalWait)
        let frame ← (refresh n true wait).call
        answerPainted frame) := by
  refine ⟨by simp [Leaves], fun painted => ?_⟩
  cases (painted : Bool) with
  | false =>
      refine (call_leaves _).bind (fun got _ => ?_)
      cases got <;> trivial
  | true =>
      refine (call_leaves _).bind (fun got _ => ?_)
      unfold answerPainted
      split
      · trivial
      · exact ⟨by simp [Leaves], fun _ => trivial⟩
      · trivial

/-- A screenshot takes the record, rests, and asks for its frame. -/
theorem freshFrame_watched (config : HandlerConfig) (n : Nat) :
    Follows (watching config.inputSettle) .early (serve (freshFrame config.toServerConfig n))
      (fun _ _ => True) := by
  refine follows_bind (R := fun _ _ => True) (follows_call ?_) (fun ended _ _ => ?_)
  · refine ⟨trivial, fun lastInput _ => ?_⟩
    show Follows _ (Watch.after config.inputSettle lastInput)
      (settle config.toServerConfig lastInput >>= _) _
    refine follows_bind (settle_watched config lastInput) (fun _ w hw => ?_)
    subst hw
    refine (follows_of_only (P := fun o => Leaves (.inl o)) (fun o ho => ho) (fun _ _ _ => rfl)
      (fun _ => trivial) (answer_leaves config.toServerConfig n lastInput)).mono
      (fun _ _ _ => trivial)
  · cases ended <;> trivial

/-- A task that takes no record. -/
theorem follows_of_leaves {p : HandlerTask α} (h : p.Only Leaves (fun _ => True)) :
    Follows (watching d) .early p (fun _ _ => True) :=
  (leaves_follows h (.inl rfl)).mono (fun _ _ _ => trivial)

theorem respond_watched (config : HandlerConfig) (n : Nat) (cursor : Coordinate)
    (action : ComputerAction) :
    Follows (watching config.inputSettle) .early (respond config n cursor action)
      (fun _ _ => True) := by
  cases action with
  | screenshot => exact follows_bind (freshFrame_watched config n) (fun _ _ _ => trivial)
  | _ => trivial

/-- A request takes a record in its answer at the earliest. -/
theorem computer_watched (config : HandlerConfig) (n : Nat) (action : ComputerAction) :
    Follows (watching config.inputSettle) .early (computer config n action) (fun _ _ => True) := by
  have hsize : (serve (ses .size)).Only Leaves (fun _ => True) :=
    serve_leaves ⟨by simp [Leaves], fun _ => trivial⟩
  unfold computer
  refine follows_bind (leaves_follows hsize (.inl rfl)) (fun size w hw => ?_)
  subst hw
  split
  · trivial
  · next ops _ =>
      refine follows_bind (leaves_follows (hand_leaves .lock) (.inl rfl)) (fun _ w hw => ?_)
      subst hw
      refine follows_bind (leaves_follows (execute_leaves ops) (.inl rfl)) (fun outcome w hw => ?_)
      subst hw
      refine follows_bind (leaves_follows (stamp_leaves ops) (.inl rfl)) (fun _ w hw => ?_)
      subst hw
      refine follows_bind (leaves_follows (hand_leaves .cursor) (.inl rfl)) (fun cursor w hw => ?_)
      subst hw
      refine follows_bind (leaves_follows (hand_leaves .unlock) (.inl rfl)) (fun _ w hw => ?_)
      subst hw
      cases outcome with
      | error e => trivial
      | ok a => exact respond_watched config n cursor action

theorem background_watched (p : Rfb.Task Returned) :
    Follows (watching d) .early (background p) (fun _ _ => True) :=
  follows_of_leaves ((serve_leaves (call_leaves p)).bind (fun _ _ => trivial))

theorem runClock_leaves (ticks : List Duration) :
    (runClock ticks).Only (fun o => Leaves (.inl o)) (fun _ => True) := by
  induction ticks with
  | nil => trivial
  | cons d rest ih => exact ⟨by simp [Leaves], fun _ => ih⟩

theorem job_watched (config : HandlerConfig) (job : Job) :
    Follows (watching config.inputSettle) .early (job.task config) (fun _ _ => True) := by
  cases job with
  | clock ticks =>
      exact follows_of_leaves ((serve_leaves (runClock_leaves ticks)).bind (fun _ _ => trivial))
  | close => exact background_watched _
  | clipboard text => exact background_watched _
  | screenshot n => exact follows_bind (freshFrame_watched config n) (fun _ _ _ => trivial)
  | computer n action => exact follows_bind (computer_watched config n action) (fun _ _ _ => trivial)

/-- Every task of a server comes to its screenshot this way. -/
theorem service_watched {z : Decompress} (width height : UInt16) (name : String)
    (continuous : Bool) (n m : Nat) (d : Decoders z) (time : Duration) (config : HandlerConfig)
    (jobs : List Job) :
    Tasks.Roles (watching config.inputSettle) (fun _ _ => True) (fun _ => .early)
      (service width height name continuous n m d time config jobs) := by
  intro j p own hget
  have hmem := List.mem_of_getElem? hget
  rcases List.mem_append.mp hmem with hmem | hmem
  · obtain ⟨q, _, heq⟩ := List.mem_map.mp hmem
    cases heq
    exact background_watched q
  · obtain ⟨job, _, heq⟩ := List.mem_map.mp hmem
    cases heq
    exact job_watched config job

end Tasks

/-! ## The invariant -/

/-- What is known of the input that was finished before a task took the
record. -/
def Watch.Knows (config : HandlerConfig) (time now : Duration) (t : List (Tasks.Entry ServeSig)) :
    Watch → Prop
  | .early => False
  | .took settled => Settled config time settled t
  | .measured settled now' => Settled config time settled t ∧ now' ≤ now
  | .dozing deadline => Settled config time deadline t
  | .rested => Settled config time now t

/-- The record is of the last input, and whoever has taken it knows what it
waits for. -/
structure Recorded (config : HandlerConfig) (time : Duration) (γ : Nat → Watch)
    (t : List (Tasks.Entry ServeSig)) (c : Tasks ServeSig Left Reply Desk Own) : Prop where
  clocked : c.shared.1.2.time = clock time t
  record : ∀ at', c.shared.1.2.lastInput = some at' → Settled config time (at' + config.inputSettle) t
  knows : ∀ j before lastInput after, t = before ++ taking j lastInput :: after →
    (γ j).Knows config time (clock time t) before
  settles : SettlesFirst config time t

section

variable {config : HandlerConfig} {time : Duration} {γ : Nat → Watch}
  {t : List (Tasks.Entry ServeSig)} {c : Tasks ServeSig Left Reply Desk Own} {i : Nat} {m : Choice}
  {o : ServeSig.Op} {k : ServeSig.Resp o → HandlerTask Reply} {own own' : Own}
  {r : ServeSig.Resp o} {s s' : Desk} {w : Watch}

/-- Later is no harm. -/
theorem Watch.Knows.mono {now later : Duration} (h : w.Knows config time now t)
    (hlater : now ≤ later) : w.Knows config time later t := by
  cases w with
  | early => exact h
  | took settled => exact h
  | measured settled now' => exact ⟨h.1, h.2.trans hlater⟩
  | dozing deadline => exact h
  | rested => exact h.mono hlater

/-- What an operation does to the clock. -/
theorem time_after (hdoes : serveDoes o m s own = some (r, s', own')) :
    s'.1.2.time = s.1.2.time + ticks ⟨i, o, r⟩ := by
  cases o with
  | inr o => rw [(serveDoes_inr hdoes).2.1]; rfl
  | inl o =>
      cases o with
      | inl o => rw [(serveDoes_session hdoes).2.1]; rfl
      | inr o =>
          obtain ⟨hexec, _, _⟩ := serveDoes_app hdoes
          cases o with
          | sleepUntil deadline =>
              rw [App.exec] at hexec
              split at hexec
              · obtain ⟨_, heq⟩ := Prod.mk.inj (Option.some.inj hexec)
                rw [← heq]
                rfl
              · cases hexec
          | _ =>
              obtain ⟨_, heq⟩ := Prod.mk.inj (Option.some.inj hexec)
              rw [← heq]
              rfl

/-- A record of the last input says until when all input settles. -/
theorem record_step (h : Recorded config time γ t c)
    (hdoes : serveDoes o m c.shared own = some (r, s', own')) {at' : Duration}
    (hlast : s'.1.2.lastInput = some at') :
    Settled config time (at' + config.inputSettle) (t ++ [⟨i, o, r⟩]) := by
  by_cases hstamp : o = .inl (.inr .stampInput)
  · subst hstamp
    obtain ⟨hexec, _, _⟩ := serveDoes_app hdoes
    obtain ⟨_, heq⟩ := Prod.mk.inj (Option.some.inj hexec)
    rw [← heq] at hlast
    cases hlast
    rw [h.clocked]
    exact (settled_from_now config time t).snoc (fun _ _ => Nat.le_refl _)
  · by_cases htake : o = .inl (.inr .takeLastInput)
    · subst htake
      obtain ⟨hexec, _, _⟩ := serveDoes_app hdoes
      obtain ⟨_, heq⟩ := Prod.mk.inj (Option.some.inj hexec)
      rw [← heq] at hlast
      cases hlast
    · rw [lastInput_after hstamp htake hdoes] at hlast
      refine (h.record at' hlast).snoc (fun j heq => ?_)
      obtain ⟨_, heq, _⟩ := Tasks.Entry.mk.inj heq
      exact absurd heq hstamp

/-- A screenshot that takes the record knows what it waits for. -/
theorem knows_taken (h : Recorded config time γ t c) (hunshared : Unshared config time t c i m)
    {lastInput : Option Duration}
    {k : ServeSig.Resp (.inl (.inr .takeLastInput)) → HandlerTask Reply}
    (htask : c.tasks[i]? = some (.step (.inl (.inr .takeLastInput)) k, own))
    (hmay : (γ i).may (.inl (.inr .takeLastInput)))
    (hdoes : serveDoes (.inl (.inr .takeLastInput)) m c.shared own = some (lastInput, s', own')) :
    ((γ i).next config.inputSettle (.inl (.inr .takeLastInput)) lastInput).Knows config time
      (clock time t) t := by
  obtain ⟨hexec, _, _⟩ := serveDoes_app hdoes
  obtain ⟨hread, _⟩ := Prod.mk.inj (Option.some.inj hexec)
  cases hw : γ i with
  | early =>
      show (Watch.after config.inputSettle lastInput).Knows config time (clock time t) t
      cases lastInput with
      | none =>
          have hsettled := hunshared.empty k own htask hread
          rw [h.clocked] at hsettled
          exact hsettled
      | some at' => exact h.record at' hread
  | rested =>
      rw [hw] at hmay
      exact absurd rfl hmay
  | _ =>
      rw [hw] at hmay
      cases hmay

/-- A screenshot on its way keeps what it knows, and waits for it. -/
theorem knows_next (hclock : c.shared.1.2.time = clock time t) (hmay : w.may o)
    (hdoes : serveDoes o m c.shared own = some (r, s', own'))
    {before : List (Tasks.Entry ServeSig)} (hknows : w.Knows config time (clock time t) before) :
    (w.next config.inputSettle o r).Knows config time (clock time t) before := by
  cases w with
  | early => exact hknows.elim
  | took settled =>
      cases hmay
      obtain ⟨hexec, _, _⟩ := serveDoes_app hdoes
      obtain ⟨hread, _⟩ := Prod.mk.inj (Option.some.inj hexec)
      have hnow : r = clock time t := hread.symm.trans hclock
      show (Watch.judged settled r).Knows config time (clock time t) before
      unfold Watch.judged
      split
      · exact ⟨hknows, Nat.le_of_eq hnow⟩
      · next hlt =>
          have hle : settled ≤ clock time t := hnow ▸ Nat.le_of_not_lt hlt
          exact Settled.mono hknows hle
  | measured settled now =>
      cases hmay
      obtain ⟨hexec, _, _⟩ := serveDoes_app hdoes
      obtain ⟨hread, _⟩ := Prod.mk.inj (Option.some.inj hexec)
      have hnow : r = clock time t := hread.symm.trans hclock
      obtain ⟨hsettled, hle⟩ := hknows
      subst hnow
      have hdeadline : settled ≤ clock time t + (settled - now) := by
        unfold Duration at *
        omega
      exact hsettled.mono hdeadline
  | dozing deadline =>
      cases hmay
      obtain ⟨hexec, _, _⟩ := serveDoes_app hdoes
      rw [App.exec] at hexec
      split at hexec
      · next hle =>
          rw [hclock] at hle
          exact Settled.mono hknows hle
      · cases hexec
  | rested => exact hknows

theorem knows_step (h : Recorded config time γ t c) (hunshared : Unshared config time t c i m)
    (htask : c.tasks[i]? = some (.step o k, own)) (hmay : (γ i).may o)
    (hdoes : serveDoes o m c.shared own = some (r, s', own')) {j : Nat}
    {before after : List (Tasks.Entry ServeSig)} {lastInput : Option Duration}
    (ht : t ++ [⟨i, o, r⟩] = before ++ taking j lastInput :: after) :
    (Tasks.moved (watching config.inputSettle) γ i o r j).Knows config time
      (clock time (t ++ [⟨i, o, r⟩])) before := by
  have hlater : clock time t ≤ clock time (t ++ [⟨i, o, r⟩]) := by
    rw [clock_append]
    exact clock_le _ _
  refine Watch.Knows.mono ?_ hlater
  rcases Tasks.snoc_split ht with ⟨_, rfl, hentry⟩ | ⟨rest, _, hbefore⟩
  · cases hentry
    have hself := congrArg (Watch.Knows config time (clock time t) t)
      (Tasks.moved_self (watching config.inputSettle) γ i (.inl (.inr .takeLastInput)) lastInput)
    exact Eq.mpr hself (knows_taken h hunshared htask hmay hdoes)
  · have hknows := h.knows j before lastInput rest hbefore
    by_cases hji : j = i
    · subst hji
      rw [Tasks.moved_self]
      exact knows_next h.clocked hmay hdoes hknows
    · rw [Tasks.moved_of_ne _ _ hji]
      exact hknows

/-- A screenshot calls `refresh` once it has rested. -/
theorem settles_step (h : Recorded config time γ t c) (hmay : (γ i).may o) :
    SettlesFirst config time (t ++ [⟨i, o, r⟩]) := by
  intro j lastInput before between after ht
  rcases Tasks.snoc_split ht with ⟨_, hall, hentry⟩ | ⟨rest, _, hall⟩
  · cases hentry
    have hknows := h.knows i before lastInput between hall
    rw [← hall]
    cases hw : γ i with
    | rested =>
        rw [hw] at hknows
        exact hknows
    | early =>
        rw [hw] at hknows
        exact hknows.elim
    | _ =>
        rw [hw] at hmay
        cases hmay
  · exact h.settles j lastInput before between rest hall

end

/-! ## Runs -/

section

variable {z : Decompress} {width height : UInt16} {name : String} {continuous : Bool} {n m : Nat}
  {d : Decoders z} {time : Duration} {config : HandlerConfig} {jobs : List Job}
  {t : List (Tasks.Entry ServeSig)} {c : Tasks ServeSig Left Reply Desk Own}

/-- **A screenshot after input settles first**, in every run in which a
screenshot that finds no record of input finds all input settled: it calls
`refresh` no earlier than `input_settle` after every input that was finished
before it began. -/
theorem screenshot_settles_first (h : Tasks.Runs serveDoes (Unshared config time)
    (service width height name continuous n m d time config jobs) t c) :
    SettlesFirst config time t := by
  have hstart : Recorded config time (fun _ => .early) []
      (service width height name continuous n m d time config jobs) :=
    { clocked := rfl
      record := fun at' hlast => by cases hlast
      knows := fun j before lastInput after ht => by cases before <;> cases ht
      settles := fun j lastInput before between after ht => by cases before <;> cases ht }
  obtain ⟨γ, _, hrecorded⟩ := h.joint
    (service_watched width height name continuous n m d time config jobs) hstart
    (fun t c γ i m o k own r s' own' hunshared _ h htask hmay hdoes => ⟨trivial,
      { clocked := by rw [clock_snoc, ← h.clocked, time_after hdoes]
        record := fun at' hlast => record_step h hdoes hlast
        knows := fun j before lastInput after ht => knows_step h hunshared htask hmay hdoes ht
        settles := settles_step h hmay }⟩)
  exact hrecorded.settles

end

/-! ## Two screenshots after one input -/

/-- A step that the law speaks of. -/
inductive Landmark where
  | stamped (i : Nat)
  | taken (j : Nat) (lastInput : Option Duration)
  | refreshed (j : Nat)
  deriving DecidableEq

def Landmark.entry : Landmark → Tasks.Entry ServeSig
  | stamped i => stamps i
  | taken j lastInput => taking j lastInput
  | refreshed j => refreshes j

def landmark? : Tasks.Entry ServeSig → Option Landmark
  | ⟨i, .inl (.inr .stampInput), _⟩ => some (.stamped i)
  | ⟨j, .inl (.inr .takeLastInput), lastInput⟩ => some (.taken j lastInput)
  | ⟨j, .inl (.inl .subscribe), _⟩ => some (.refreshed j)
  | _ => none

theorem eq_landmark {e : Tasks.Entry ServeSig} {l : Landmark} (h : landmark? e = some l) :
    e = l.entry := by
  unfold landmark? at h
  split at h <;> cases h <;> rfl

/-- What happened before a landmark, and after it. -/
theorem at_landmark {t : List (Tasks.Entry ServeSig)} {n : Nat} {l : Landmark}
    (h : t[n]?.bind landmark? = some l) : t = t.take n ++ l.entry :: t.drop (n + 1) := by
  obtain ⟨e, hget, he⟩ := Option.bind_eq_some_iff.mp h
  obtain ⟨hn, hget⟩ := List.getElem?_eq_some_iff.mp hget
  rw [← eq_landmark he, ← hget, List.getElem_cons_drop, List.take_append_drop]

/-- A server's settings: half a second for input to settle. -/
def halfSecond : HandlerConfig := ⟨⟨500000000, 5000000000⟩, ⟨20, 20, 150⟩⟩

/-- A server with a request to move the pointer, two screenshots, and half a
second. -/
def looking : Tasks ServeSig Left Reply Desk Own :=
  service 8 8 "desktop" false 0 0 (Decoders.new stored) 0 halfSecond
    [.computer 0 (.mouseMove (3, 4)), .screenshot 0, .screenshot 0, .clock [500000000]]

/-- A step at which no screenshot finds the record empty. -/
def unshared? (_t : List (Tasks.Entry ServeSig)) (c : Tasks ServeSig Left Reply Desk Own)
    (i : Nat) (_m : Choice) : Bool :=
  match c.tasks[i]? with
  | some (.step (.inl (.inr .takeLastInput)) _, _) => c.shared.1.2.lastInput.isSome
  | _ => true

theorem unshared_of_check (config : HandlerConfig) (time : Duration)
    (t : List (Tasks.Entry ServeSig)) (c : Tasks ServeSig Left Reply Desk Own) (i : Nat)
    (m : Choice) (h : unshared? t c i m = true) : Unshared config time t c i m where
  empty k own htask hnone := by
    rw [unshared?, htask] at h
    have hsome : c.shared.1.2.lastInput.isSome = true := h
    rw [hnone] at hsome
    cases hsome

/-- The pointer is moved, and one screenshot begins. -/
def movedAndTaken : List (Nat × Choice) := moves 3 (List.replicate 10 []) ++ moves 4 [[]]

/-- The screenshot waits half a second before it asks for its frame. -/
theorem screenshot_settles_first_once :
    ∃ t c, Tasks.Runs serveDoes (Unshared halfSecond 0) looking t c ∧
      (t.getLast?.bind landmark?, clock 0 t) = (some (.refreshed 4), 500000000) ∧
      SettlesFirst halfSecond 0 t := by
  have hend : (looking.record unshared? serveDoes
      (movedAndTaken ++ moves 4 [[], []] ++ moves 6 [[]] ++ moves 4 [[], [], []]) []).map
        (fun e => (e.1.getLast?.bind landmark?, clock 0 e.1)) =
        some (some (.refreshed 4), 500000000) := by
    decide +kernel
  obtain ⟨⟨t, c⟩, hrecord, heq⟩ := Option.map_eq_some_iff.mp hend
  have hrun := Tasks.runs_record (unshared_of_check halfSecond 0) hrecord .start
  exact ⟨t, c, hrun, heq, screenshot_settles_first hrun⟩

/-- The second screenshot after one input finds no record of it, and asks for
its frame at once. -/
theorem not_screenshot_settles_first :
    ¬ ∀ t c, Tasks.Runs serveDoes Tasks.Anyhow looking t c → SettlesFirst halfSecond 0 t := by
  intro hall
  have hend : (looking.record (fun _ _ _ _ => true) serveDoes
      (movedAndTaken ++ moves 5 [[], [], []]) []).map
        (fun e => ((e.1.take 11)[7]?.bind landmark?, e.1[11]?.bind landmark?,
          (e.1.drop 12)[1]?.bind landmark?, clock 0 ((e.1.take 11).take 7),
          clock 0 (e.1.take 11 ++ taking 5 none :: (e.1.drop 12).take 1))) =
        some (some (.stamped 3), some (.taken 5 none), some (.refreshed 5), 0, 0) := by
    decide +kernel
  obtain ⟨⟨t, c⟩, hrecord, heq⟩ := Option.map_eq_some_iff.mp hend
  obtain ⟨hstamped, heq⟩ := Prod.mk.inj heq
  obtain ⟨htaken, heq⟩ := Prod.mk.inj heq
  obtain ⟨hrefreshed, heq⟩ := Prod.mk.inj heq
  obtain ⟨hfinished, hnow⟩ := Prod.mk.inj heq
  have hsettles := hall t c (Tasks.runs_record (fun _ _ _ _ _ => trivial) hrecord .start)
  have hsplit : t = t.take 11 ++ taking 5 none :: (t.drop 12).take 1 ++
      refreshes 5 :: (t.drop 12).drop 2 := by
    rw [List.append_assoc, List.cons_append]
    exact (at_landmark htaken).trans
      (congrArg (fun rest => t.take 11 ++ taking 5 none :: rest) (at_landmark hrefreshed))
  have hlate := hsettles 5 none _ _ _ hsplit 3 _ _ (at_landmark hstamped)
  rw [hnow, hfinished] at hlate
  exact absurd hlate (by decide)

end Bolide.Server
