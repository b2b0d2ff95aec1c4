/-
Bolide.Server.FreshFrameTheorems — what the frame of a screenshot shows.

The system is the reader task, any number of screenshots and any number of
other tasks, on one session and in any order. A screenshot is told of the
screen twice: by the painted flag, when it begins, and by a Painted event,
when one ends its wait. Between either and the copy of the frame the reader
may handle a DesktopSize rect and make the screen black, and the code does
not look at the flag again.

`Timely` is the condition on a step under which that does not happen, and
`freshFrame_painted` says that it is enough: in every run whose steps are
all timely, every frame a screenshot answers with was copied while the
screen was painted. `not_painted_resize` is a run without it.
-/
import Bolide.Server.FreshFrame
import Bolide.Rfb.HandleTheorems
import Bolide.Rfb.ClientInvariants

namespace Bolide.Server

open Lib Prog Bolide.Rfb

/-! ## The system -/

/-- The state shared by every task. -/
abbrev Shared := Inner × App

/-- A task of the system: a screenshot returns its frame. -/
abbrev Proc := ServerTask (Option Framebuffer)

/-- The reader task, for as many as `n` messages. -/
def readerProc {z : Decompress} (continuous : Bool) (n : Nat) (d : Decoders z) : Proc := do
  let _ ← (readerTask continuous n d).call
  return none

/-- A request for a screenshot. -/
def shotProc (config : ServerConfig) (n : Nat) : Proc := do
  let frame ← freshFrame config n
  return some frame

/-- An operation of a task that is neither the reader nor a screenshot: the
writer, a handle that sends or closes, an action that stamps its input, the
clock. What such a task only looks at is left out. -/
def Bystander : (SessionSig.sum AppSig).Op → Prop
  | .inl o => match o with
      | .loadConnected | .swapConnected | .addOutstanding | .push _ | .signalShutdown => True
      | .pop | .swapNeedsFull | .size | .pollWrite _ | .closeCommands => True
      | .emit event => ∃ reason, event = .disconnected reason
      | _ => False
  | .inr _ => True

/-- Another task. -/
structure Other where
  proc : Proc
  only : proc.Only Bystander (fun a => a = none)

/-- A session that has just been opened, with its reader, screenshots that
have yet to begin, and other tasks. -/
def system {z : Decompress} (width height : UInt16) (name : String) (time : Duration)
    (continuous : Bool) (n : Nat) (d : Decoders z) (shots : List (ServerConfig × Nat))
    (others : List Other) : Tasks (SessionSig.sum AppSig) Refusal (Option Framebuffer) Shared Own where
  shared := (.new width height name, { lastInput := none, time })
  tasks := (readerProc continuous n d, .new) ::
    (shots.map (fun s => (shotProc s.1 s.2, Own.new)) ++ others.map (fun t => (t.proc, Own.new)))

/-! ## When a resize may come -/

/-- A Painted event is still to be read. -/
def HasPaint (i : Inner) (own : Own) : Prop :=
  ∃ generation, .painted generation ∈ own.unread i

/-- The task goes by what it has been told of the screen: it has yet to read
a Painted event or to act on one, or its wait is over and it copies next. -/
def Relies (i : Inner) : Proc × Own → Prop
  | (.step o _, own) => o = .inl .framebuffer ∨ o = .inl .loadLastPainted ∨ HasPaint i own
  | (.fail .parked, own) => HasPaint i own
  | _ => False

/-- The task's next operation copies the framebuffer. -/
def Copies (p : Proc) : Prop := ∃ k, p = .step (.inl .framebuffer) k

/-- The condition on a step: a DesktopSize rect is handled while no
screenshot relies on the screen, and no screenshot's wait ends in a fallback
on an unpainted one. -/
structure Timely (c : Tasks (SessionSig.sum AppSig) Refusal (Option Framebuffer) Shared Own)
    (i : Nat) (_m : Choice) : Prop where
  resize : ∀ w h k own, c.tasks[i]? = some (.step (.inl (.desktopSize w h)) k, own) →
    ∀ t ∈ c.tasks, ¬ Relies c.shared.1 t
  fallback : ∀ k own, c.tasks[i]? = some (.step (.inl .recv) k, own) →
    own.unread c.shared.1 = [] → Copies (k .elapsed) → c.shared.1.state.painted = true

/-! ## What each task may do -/

/-- Where a task stands. `painted` is what a screenshot read of the flag. -/
inductive Role where
  | reader (fresh : Bool)
  | other
  | early
  | checked (painted : Bool)
  | subscribed (painted : Bool)
  | waiting (painted : Bool) (floor : Nat)
  | told (painted : Bool) (floor : Nat)
  | ready
  | copied (frame : Framebuffer)
  | failed

/-- The operations of a screenshot that waits. -/
def Waits : Op → Prop
  | .loadConnected | .addOutstanding | .push _ | .recv => True
  | _ => False

/-- What may be done in each role. -/
def Role.may : Role → (SessionSig.sum AppSig).Op → Prop
  | .reader fresh, .inl o => Safely.may fresh o
  | .other, o => Bystander o
  | .early, .inl o => o = .painted
  | .early, .inr _ => True
  | .checked _, .inl o => o = .subscribe
  | .subscribed _, .inl o => o = .loadUpdatesBegun
  | .waiting _ _, .inl o => Waits o
  | .told _ _, .inl o => o = .loadLastPainted
  | .ready, .inl o => o = .framebuffer
  | _, _ => False

/-- Where a wakeup leaves a screenshot that waits. -/
def Role.woken (painted : Bool) (floor : Nat) : Wakeup → Role
  | .received (.event (.painted _)) => .told painted floor
  | .received (.event (.disconnected _)) => .failed
  | .received _ => .waiting painted floor
  | .elapsed => if painted then .ready else .failed
  | .closed => .failed

/-- A screenshot goes on waiting if its request was accepted. -/
def Role.asked (painted : Bool) (floor : Nat) (accepted : Bool) : Role :=
  if accepted then .waiting painted floor else .failed

/-- A paint ends the wait if its update is past the floor. -/
def Role.judged (painted : Bool) (floor last : Nat) : Role :=
  if floor < last then .ready else .waiting painted floor

/-- Where an operation leaves a task. -/
def Role.next : Role → (o : (SessionSig.sum AppSig).Op) → (SessionSig.sum AppSig).Resp o → Role
  | .reader fresh, .inl o, r => .reader (Safely.next fresh o r)
  | .early, .inl .painted, painted => .checked painted
  | .checked painted, .inl .subscribe, _ => .subscribed painted
  | .subscribed painted, .inl .loadUpdatesBegun, floor => .waiting painted floor
  | .waiting painted floor, .inl .recv, woken => .woken painted floor woken
  | .waiting painted floor, .inl .loadConnected, connected => .asked painted floor connected
  | .waiting painted floor, .inl (.push _), sent => .asked painted floor sent
  | .told painted floor, .inl .loadLastPainted, last => .judged painted floor last
  | .ready, .inl .framebuffer, frame => .copied frame
  | role, _, _ => role

/-- How a task may end without a value. -/
def Role.fails : Role → Refusal → Prop
  | .failed, _ => True
  | .other, _ => True
  | .waiting _ _, e => e = .parked
  | _, _ => False

/-- The discipline of the system. -/
def freshness : Discipline (SessionSig.sum AppSig) Refusal Role where
  may := Role.may
  answers role o r := match role, o, r with
    | .reader fresh, .inl o, r => Safely.answers fresh o r
    | _, _, _ => True
  next := Role.next
  fails := Role.fails

/-- A screenshot answers with the frame it copied; no other task does. -/
def Answers (a : Option Framebuffer) : Role → Prop
  | .copied frame => a = some frame
  | .reader _ => a = none
  | .other => a = none
  | _ => False

/-! ## Every task keeps to its role -/

theorem reader_follows {z : Decompress} (continuous : Bool) (n : Nat) (d : Decoders z) :
    Follows freshness (.reader false) (readerProc continuous n d) Answers := by
  have hcall : Follows freshness (.reader false) (readerTask continuous n d).call
      (fun _ role => ∃ fresh, role = .reader fresh) := by
    refine follows_call ?_
    refine (safe_readerTask continuous n d).map Role.reader ?_ ?_ ?_ ?_ ?_
    · intro fresh o h
      exact h
    · intro fresh o r _ h
      exact h
    · intro fresh o r _
      rfl
    · intro fresh e _
      exact ⟨fresh, rfl⟩
    · intro _ fresh _
      exact ⟨fresh, rfl⟩
  refine follows_bind hcall (fun _ role hrole => ?_)
  obtain ⟨fresh, rfl⟩ := hrole
  rfl

theorem other_follows (t : Other) : Follows freshness .other t.proc Answers := by
  have h := follows_of_only (D := freshness) (g := .other) (fun _ h => h) (fun o _ _ => by
    cases o with
    | inl o => rfl
    | inr o => rfl) (fun _ => trivial) t.only
  refine h.mono (fun a role hrole => ?_)
  obtain ⟨rfl, rfl⟩ := hrole
  rfl

/-- How a `refresh` that returns no frame leaves its screenshot. -/
def Unanswered (painted : Bool) (role : Role) (e : Stop) : Prop :=
  (role = .failed ∧ ∀ after, e = .err (.timeout after) → painted = false) ∨
    (role = .ready ∧ painted = true ∧ ∃ after, e = .err (.timeout after)) ∨
    (e = .parked ∧ ∃ floor, role = .waiting painted floor)

theorem waitPainted_follows (painted : Bool) (timeout : Duration) (floor : Nat) : ∀ n,
    Follows (freshness.inl (Unanswered painted)) (.waiting painted floor)
      (waitPainted timeout floor n) (fun _ role => role = .ready)
  | 0 => .inr (.inr ⟨rfl, floor, rfl⟩)
  | n + 1 => by
      have ih := waitPainted_follows painted timeout floor n
      refine follows_perform trivial (fun woken _ => ?_)
      match woken with
      | .elapsed =>
          cases painted with
          | true => exact .inr (.inl ⟨rfl, rfl, timeout, rfl⟩)
          | false => exact .inl ⟨rfl, fun _ _ => rfl⟩
      | .closed => exact .inl ⟨rfl, fun _ h => by cases h⟩
      | .received (.lagged _) => exact ih
      | .received (.event (.disconnected _)) => exact .inl ⟨rfl, fun _ h => by cases h⟩
      | .received (.event (.resized _ _)) => exact ih
      | .received (.event (.cutText _)) => exact ih
      | .received (.event .bell) => exact ih
      | .received (.event (.painted _)) =>
          refine follows_perform rfl (fun last _ => ?_)
          show Follows _ (Role.judged painted floor last) _ _
          unfold Role.judged
          split
          · rfl
          · exact ih

theorem send_follows (painted : Bool) (floor : Nat) (command : Command) :
    Follows (freshness.inl (Unanswered painted)) (.waiting painted floor) (send command)
      (fun sent role => match sent with
        | .ok () => role = .waiting painted floor
        | .error e => role = .failed ∧ e = .closed) := by
  refine follows_perform trivial (fun connected _ => ?_)
  cases connected with
  | false => exact ⟨rfl, rfl⟩
  | true =>
      have hcount : Follows (freshness.inl (Unanswered painted)) (.waiting painted floor)
          (countRequest command) (fun _ role => role = .waiting painted floor) := by
        cases command with
        | write bytes => rfl
        | request incremental => exact ⟨trivial, fun _ _ => rfl⟩
      refine follows_bind hcount (fun _ role hrole => ?_)
      subst hrole
      refine follows_perform trivial (fun sent _ => ?_)
      cases sent with
      | false => exact ⟨rfl, rfl⟩
      | true => rfl

theorem refresh_follows (painted : Bool) (n : Nat) (incremental : Bool) (timeout : Duration) :
    Follows (freshness.inl (Unanswered painted)) (.checked painted) (refresh n incremental timeout)
      (fun frame role => role = .copied frame) := by
  refine follows_perform rfl (fun _ _ => follows_perform rfl (fun floor _ => ?_))
  refine follows_bind (send_follows painted floor (.request incremental)) (fun sent role hrole => ?_)
  match sent, hrole with
  | .error e, hrole =>
      obtain ⟨rfl, rfl⟩ := hrole
      exact .inl ⟨rfl, fun _ h => by cases h⟩
  | .ok (), hrole =>
      subst hrole
      refine follows_bind (waitPainted_follows painted timeout floor n) (fun _ role hrole => ?_)
      subst hrole
      exact ⟨rfl, fun _ _ => rfl⟩

/-- How a `refresh` leaves its screenshot. -/
def Refreshed (painted : Bool) : Except Stop Framebuffer → Role → Prop
  | .ok frame, role => role = .copied frame
  | .error e, role => Unanswered painted role e

theorem call_refresh_follows (painted : Bool) (n : Nat) (incremental : Bool) (timeout : Duration) :
    Follows freshness (.checked painted) (refresh n incremental timeout).call (Refreshed painted) :=
  follows_call (Q := Refreshed painted) (refresh_follows painted n incremental timeout)

/-- What the server does of its own leaves a screenshot where it was. -/
theorem follows_app {α : Type} {o : AppOp} {f : o.Resp → ServerTask α} {Q : α → Role → Prop}
    (hf : ∀ r, Follows freshness .early (f r) Q) : Follows freshness .early (app o >>= f) Q :=
  follows_perform trivial (fun r _ => hf r)

theorem settle_follows (config : ServerConfig) (lastInput : Option Duration) :
    Follows freshness .early (settle config lastInput) (fun _ role => role = .early) := by
  cases lastInput with
  | none => rfl
  | some at' =>
      refine follows_app (fun now => ?_)
      split
      · refine follows_app (fun now' => ?_)
        exact ⟨trivial, fun _ _ => rfl⟩
      · rfl

/-- A failure that is passed on. -/
theorem fail_follows {painted : Bool} {role : Role} {e : Stop} (h : Unanswered painted role e)
    (hready : role ≠ .ready) :
    Follows freshness role (Prog.fail (fromStop e) : ServerTask Framebuffer)
      (fun frame role => role = .copied frame) := by
  rcases h with ⟨rfl, _⟩ | ⟨h, _⟩ | ⟨rfl, floor, rfl⟩
  · trivial
  · exact absurd h hready
  · rfl

theorem answerFresh_follows {got : Except Stop Framebuffer} {role : Role}
    (h : Refreshed false got role) :
    Follows freshness role (answerFresh got) (fun frame role => role = .copied frame) := by
  cases got with
  | ok frame => exact h
  | error e =>
      refine fail_follows h (fun hready => ?_)
      rcases h with ⟨h, _⟩ | ⟨_, h, _⟩ | ⟨_, floor, h⟩
      · rw [hready] at h
        cases h
      · cases h
      · rw [hready] at h
        cases h

/-- Only a timeout ends the wait without an update. -/
theorem ready_of_unanswered {e : Stop} (h : Unanswered true .ready e) :
    ∃ after, e = .err (.timeout after) := by
  rcases h with ⟨h, _⟩ | ⟨_, _, h⟩ | ⟨_, floor, h⟩
  · cases h
  · exact h
  · cases h

theorem ready_of_timeout {role : Role} {after : Duration}
    (h : Unanswered true role (.err (.timeout after))) : role = .ready := by
  rcases h with ⟨_, h⟩ | ⟨h, _⟩ | ⟨h, _⟩
  · cases h after rfl
  · exact h
  · cases h

theorem answerPainted_follows {got : Except Stop Framebuffer} {role : Role}
    (h : Refreshed true got role) :
    Follows freshness role (answerPainted got) (fun frame role => role = .copied frame) := by
  cases got with
  | ok frame => exact h
  | error e =>
      unfold answerPainted
      split
      · next heq => cases heq
      · next after heq =>
          cases heq
          rw [ready_of_timeout h]
          exact ⟨rfl, fun _ _ => rfl⟩
      · next e' hnot heq =>
          cases heq
          refine fail_follows h (fun hready => ?_)
          subst hready
          obtain ⟨after, rfl⟩ := ready_of_unanswered h
          exact hnot after rfl

theorem freshFrame_follows (config : ServerConfig) (n : Nat) :
    Follows freshness .early (freshFrame config n) (fun frame role => role = .copied frame) := by
  refine follows_app (fun lastInput => ?_)
  refine follows_bind (settle_follows config lastInput) (fun _ role hrole => ?_)
  subst hrole
  refine follows_perform rfl (fun painted _ => ?_)
  cases painted with
  | false =>
      exact follows_bind (call_refresh_follows false n false _)
        (fun got role h => answerFresh_follows h)
  | true =>
      exact follows_bind (call_refresh_follows true n true _)
        (fun got role h => answerPainted_follows h)

theorem shot_follows (config : ServerConfig) (n : Nat) :
    Follows freshness .early (shotProc config n) Answers := by
  refine follows_bind (freshFrame_follows config n) (fun frame role hrole => ?_)
  subst hrole
  rfl

/-! ## What the roles say of the session -/

/-- The role has a receiver. -/
def Role.Listens : Role → Prop
  | .subscribed _ => True
  | .waiting _ _ => True
  | .told _ _ => True
  | _ => False

/-- The role goes by a screen it takes to be painted. -/
def Role.Needs (i : Inner) (own : Own) : Role → Prop
  | .subscribed _ => HasPaint i own
  | .waiting _ _ => HasPaint i own
  | .told _ _ => True
  | .ready => True
  | _ => False

/-- What a task's role says of the session and of its own state. -/
structure Holds (j : Nat) (role : Role) (s : Shared) (own : Own) : Prop where
  reader : ∀ fresh, role = .reader fresh →
    j = 0 ∧ s.1.state.fb.WellFormed ∧ (fresh = true → s.1.state.painted = true)
  listens : role.Listens → own.Subscribed s.1
  painted : role.Needs s.1 own → s.1.state.painted = true
  copied : ∀ frame, role = .copied frame → own.copied = some (frame, true)

/-- A role that says nothing. -/
theorem holds_of_idle {j : Nat} {role : Role} {s : Shared} {own : Own}
    (hreader : ∀ fresh, role ≠ .reader fresh) (hlistens : ¬ role.Listens)
    (hneeds : ¬ role.Needs s.1 own) (hcopied : ∀ frame, role ≠ .copied frame) :
    Holds j role s own where
  reader fresh h := absurd h (hreader fresh)
  listens h := absurd h hlistens
  painted h := absurd h hneeds
  copied frame h := absurd h (hcopied frame)

/-- A screenshot that waits. -/
theorem holds_waiting {j : Nat} {shown : Bool} {floor : Nat} {s : Shared} {own : Own}
    (hsub : own.Subscribed s.1) (hpaint : HasPaint s.1 own → s.1.state.painted = true) :
    Holds j (.waiting shown floor) s own where
  reader fresh h := by cases h
  listens _ := hsub
  painted h := hpaint h
  copied frame h := by cases h

theorem holds_ready {j : Nat} {s : Shared} {own : Own} (h : s.1.state.painted = true) :
    Holds j .ready s own where
  reader fresh h := by cases h
  listens h := h.elim
  painted _ := h
  copied frame h := by cases h

theorem holds_failed {j : Nat} {s : Shared} {own : Own} : Holds j .failed s own :=
  holds_of_idle (fun _ h => by cases h) (fun h => h) (fun h => h) (fun _ h => by cases h)

/-- A task whose role goes by the screen relies on it. -/
theorem relies_of_needs {p : Proc} {role : Role} {i : Inner} {own : Own}
    (hf : Follows freshness role p Answers) (h : role.Needs i own) : Relies i (p, own) := by
  cases role with
  | subscribed painted =>
      cases p with
      | ret a => exact hf.elim
      | fail e => exact hf.elim
      | step o k => exact .inr (.inr h)
  | waiting painted floor =>
      cases p with
      | ret a => exact hf.elim
      | fail e =>
          cases (hf : e = .parked)
          exact h
      | step o k => exact .inr (.inr h)
  | told painted floor =>
      cases p with
      | ret a => exact hf.elim
      | fail e => exact hf.elim
      | step o k =>
          cases o with
          | inl o =>
              cases (hf.1 : o = .loadLastPainted)
              exact .inr (.inl rfl)
          | inr o => exact hf.1.elim
  | ready =>
      cases p with
      | ret a => exact hf.elim
      | fail e => exact hf.elim
      | step o k =>
          cases o with
          | inl o =>
              cases (hf.1 : o = .framebuffer)
              exact .inl rfl
          | inr o => exact hf.1.elim
  | _ => exact h.elim

/-- A screenshot that is ready copies next. -/
theorem copies_of_ready {p : Proc} (hf : Follows freshness .ready p Answers) : Copies p := by
  cases p with
  | ret a => exact hf.elim
  | fail e => exact hf.elim
  | step o k =>
      cases o with
      | inl o =>
          cases (hf.1 : o = .framebuffer)
          exact ⟨k, rfl⟩
      | inr o => exact hf.1.elim

/-! ## One operation, for the other tasks -/

/-- Only the reader touches the screen. -/
theorem not_alters_of_may {role : Role} {o : Op} (hmay : role.may (.inl o))
    (hreader : ∀ fresh, role ≠ .reader fresh) : ¬ o.AltersState := by
  intro halters
  cases o <;> first
    | exact halters
    | (cases role <;> first
        | exact hmay
        | cases hmay
        | exact hreader _ rfl)

/-- Only the reader announces a paint, and only of a painted screen. -/
theorem reader_of_emit {role : Role} {generation : Nat}
    (hmay : role.may (.inl (.emit (.painted generation)))) : role = .reader true := by
  cases role with
  | reader fresh =>
      cases fresh with
      | false => exact hmay.elim
      | true => rfl
  | other =>
      obtain ⟨reason, h⟩ := hmay
      cases h
  | waiting painted floor => exact hmay.elim
  | failed => exact hmay.elim
  | copied frame => exact hmay.elim
  | _ => cases hmay

/-- Nothing but a resize takes the paint off the screen. -/
theorem painted_after {o : Op} {i : Inner} (hres : ∀ w h, o ≠ .desktopSize w h) (r : o.Resp)
    (hpainted : i.state.painted = true) : (o.after r i).state.painted = true := by
  rw [after_painted]
  cases o with
  | desktopSize w h => exact absurd rfl (hres w h)
  | setPainted => rfl
  | _ => exact hpainted

/-- What a role goes by after an operation it went by before, or a paint has
just been announced. -/
theorem needs_after {role : Role} {o : Op} {r : o.Resp} {i : Inner} {own : Own}
    (hsub : role.Listens → own.Subscribed i) (h : role.Needs (o.after r i) own) :
    role.Needs i own ∨ ∃ generation, o = .emit (.painted generation) := by
  have hpaint : role.Listens → HasPaint (o.after r i) own →
      HasPaint i own ∨ ∃ generation, o = .emit (.painted generation) := by
    intro hl hp
    obtain ⟨generation, hmem⟩ := hp
    rcases mem_unread_after (hsub hl) hmem with hmem | hemit
    · exact .inl ⟨generation, hmem⟩
    · exact .inr ⟨generation, hemit⟩
  cases role with
  | subscribed painted => exact hpaint trivial h
  | waiting painted floor => exact hpaint trivial h
  | _ => exact .inl h

/-- An operation of one task keeps what the role of every other says. -/
theorem holds_others {c : Tasks (SessionSig.sum AppSig) Refusal (Option Framebuffer) Shared Own}
    {i j : Nat} {m : Choice} {o : Op} {k : o.Resp → Proc} {role role' : Role} {own own' : Own}
    {p : Proc} (htimely : Timely c i m) (htask : c.tasks[i]? = some (.step (.inl o) k, own))
    (hmay : role.may (.inl o)) (hj : Holds i role c.shared own) (hji : j ≠ i)
    (hget : c.tasks[j]? = some (p, own')) (hf : Follows freshness role' p Answers)
    (h : Holds j role' c.shared own') (r : o.Resp) :
    Holds j role' (o.after r c.shared.1, c.shared.2) own' where
  reader fresh hrole := by
    obtain ⟨hj0, hwf, hfresh⟩ := h.reader fresh hrole
    have hstate : (o.after r c.shared.1).state = c.shared.1.state :=
      after_state (not_alters_of_may hmay (fun fresh' hrole' => by
        have hi := (hj.reader fresh' hrole').1
        omega)) r c.shared.1
    simp only [hstate]
    exact ⟨hj0, hwf, hfresh⟩
  listens hl := (h.listens hl).after
  painted hneeds := by
    rcases needs_after h.listens hneeds with hneeds | ⟨generation, rfl⟩
    · refine painted_after (fun w' h' heq => ?_) r (h.painted hneeds)
      subst heq
      exact htimely.resize w' h' k own htask _ (List.mem_of_getElem? hget)
        (relies_of_needs hf hneeds)
    · exact (hj.reader true (reader_of_emit hmay)).2.2 rfl
  copied := h.copied

/-! ## One operation, for the task itself -/

theorem after_wellFormed {fresh : Bool} {o : Op} {i : Inner} (hwf : i.state.fb.WellFormed)
    (hmay : Safely.may fresh o) (r : o.Resp) : (o.after r i).state.fb.WellFormed := by
  have hexec := exec_wellFormed .closed 0 ⟨[], false, i⟩ hwf fresh o hmay
  rw [exec_inner] at hexec
  cases o with
  | pop => cases r <;> exact hwf
  | _ => exact hexec

/-- The reader keeps the framebuffer well formed, and marks the screen
painted before it says so. -/
theorem holds_reader {fresh : Bool} {o : Op} {i : Inner} {a : App} {own : Own}
    (hmay : Safely.may fresh o) (hwf : i.state.fb.WellFormed) {r : o.Resp} :
    Holds 0 (.reader (Safely.next fresh o r)) (o.after r i, a) own where
  reader fresh' hrole := by
    refine ⟨rfl, after_wellFormed hwf hmay r, fun hfresh => ?_⟩
    subst hfresh
    cases o with
    | setPainted => rfl
    | _ => cases hrole
  listens h := h.elim
  painted h := h.elim
  copied frame h := by cases h

/-- What the reader is answered. -/
theorem reader_answers {fresh : Bool} {o : Op} {m : Choice} {i i' : Inner} {own own' : Own}
    {r : o.Resp} (hmay : Safely.may fresh o) (hwf : i.state.fb.WellFormed)
    (h : sessionDoes o m i own = some (r, i', own')) : Safely.answers fresh o r := by
  cases o with
  | fill n =>
      simp only [sessionDoes] at h
      split at h
      · next bytes =>
          split at h
          · next hlen =>
              cases h
              exact hlen
          · cases h
      · cases h
        exact fun h => by cases h
  | draw f =>
      cases h
      exact exec_answers .closed 0 ⟨[], false, i⟩ hwf fresh (.draw f) hmay
  | _ => trivial

/-- A screenshot that waits, after one of its operations. -/
theorem holds_waits {c : Tasks (SessionSig.sum AppSig) Refusal (Option Framebuffer) Shared Own}
    {i : Nat} {m : Choice} {o : Op} {k : o.Resp → Proc} {shown : Bool} {floor : Nat}
    {own own' : Own} {r : o.Resp} {i' : Inner} (htimely : Timely c i m)
    (htask : c.tasks[i]? = some (.step (.inl o) k, own)) (hmay : Waits o)
    (hnext : Follows freshness (Role.next (.waiting shown floor) (.inl o) r) (k r) Answers)
    (hj : Holds i (.waiting shown floor) c.shared own)
    (h : sessionDoes o m c.shared.1 own = some (r, i', own')) :
    Holds i (Role.next (.waiting shown floor) (.inl o) r) (i', c.shared.2) own' := by
  have hsub := hj.listens trivial
  have hpaint : HasPaint c.shared.1 own → c.shared.1.state.painted = true := hj.painted
  have hasked : ∀ accepted, Holds i (Role.asked shown floor accepted) c.shared own := by
    intro accepted
    cases accepted with
    | true => exact hj
    | false => exact holds_failed
  cases o with
  | loadConnected =>
      cases h
      exact hasked _
  | addOutstanding =>
      cases h
      exact holds_waiting hsub hpaint
  | push command =>
      simp only [sessionDoes, execInner] at h
      split at h
      · cases h
        exact holds_waiting hsub hpaint
      · cases h
        exact holds_failed
  | recv =>
      have hi' : i' = c.shared.1 := sessionDoes_after h
      subst hi'
      rcases recv_cases h with ⟨next, next', got, hown, hrecv, rfl, rfl⟩ | ⟨hnone, rfl, rfl⟩
      · have hunread : own.unread c.shared.1
            = Broadcast.unread eventCapacity c.shared.1.events next := by rw [Own.unread, hown]
        have hsub' : Own.Subscribed { own with next := some next' } c.shared.1 :=
          ⟨next', rfl, by
            obtain ⟨n, hn, hle⟩ := hsub
            cases hown.symm.trans hn
            exact Broadcast.recv_le hrecv⟩
        cases got with
        | lagged missed =>
            refine holds_waiting hsub' (fun hp => hpaint ?_)
            obtain ⟨generation, hmem⟩ := hp
            refine ⟨generation, ?_⟩
            rw [hunread, ← Broadcast.unread_of_lagged hrecv]
            exact hmem
        | event e =>
            have hcons := Broadcast.unread_of_event hrecv
            have hlater : HasPaint c.shared.1 { own with next := some next' } →
                c.shared.1.state.painted = true := fun hp => hpaint (by
              obtain ⟨generation, hmem⟩ := hp
              refine ⟨generation, ?_⟩
              rw [hunread, hcons]
              exact List.mem_cons_of_mem _ hmem)
            cases e with
            | painted generation =>
                exact {
                  reader := fun fresh hrole => by cases hrole
                  listens := fun _ => hsub'
                  painted := fun _ => hpaint ⟨generation, by
                    rw [hunread, hcons]
                    exact List.mem_cons_self⟩
                  copied := fun frame hrole => by cases hrole }
            | disconnected reason => exact holds_failed
            | resized w' h' => exact holds_waiting hsub' hlater
            | cutText text => exact holds_waiting hsub' hlater
            | bell => exact holds_waiting hsub' hlater
      · cases shown with
        | false => exact holds_failed
        | true =>
            exact holds_ready (htimely.fallback k _ htask hnone (copies_of_ready hnext))
  | _ => exact hmay.elim

/-- An operation on the session keeps what the task's own role says. -/
theorem holds_own {c : Tasks (SessionSig.sum AppSig) Refusal (Option Framebuffer) Shared Own}
    {i : Nat} {m : Choice} {o : Op} {k : o.Resp → Proc} {role : Role} {own own' : Own}
    {r : o.Resp} {i' : Inner} (htimely : Timely c i m)
    (htask : c.tasks[i]? = some (.step (.inl o) k, own)) (hmay : role.may (.inl o))
    (hnext : Follows freshness (role.next (.inl o) r) (k r) Answers)
    (hj : Holds i role c.shared own) (h : sessionDoes o m c.shared.1 own = some (r, i', own')) :
    Holds i (role.next (.inl o) r) (i', c.shared.2) own' := by
  cases role with
  | reader fresh =>
      obtain ⟨rfl, hwf, _⟩ := hj.reader fresh rfl
      rw [sessionDoes_after h]
      exact holds_reader hmay hwf
  | other =>
      exact holds_of_idle (fun _ h => by cases h) (fun h => h) (fun h => h) (fun _ h => by cases h)
  | early =>
      cases (hmay : o = .painted)
      exact holds_of_idle (fun _ h => by cases h) (fun h => h) (fun h => h) (fun _ h => by cases h)
  | checked shown =>
      cases (hmay : o = .subscribe)
      cases h
      exact {
        reader := fun fresh hrole => by cases hrole
        listens := fun _ => ⟨_, rfl, Nat.le_refl _⟩
        painted := fun hp => by
          obtain ⟨generation, hmem⟩ := hp
          simp only [Own.unread, Broadcast.unread_subscribe] at hmem
          cases hmem
        copied := fun frame hrole => by cases hrole }
  | subscribed shown =>
      cases (hmay : o = .loadUpdatesBegun)
      cases h
      exact holds_waiting (hj.listens trivial) hj.painted
  | waiting shown floor => exact holds_waits htimely htask hmay hnext hj h
  | told shown floor =>
      cases (hmay : o = .loadLastPainted)
      cases h
      show Holds i (Role.judged shown floor _) _ _
      unfold Role.judged
      split
      · exact holds_ready (hj.painted trivial)
      · exact holds_waiting (hj.listens trivial) (fun _ => hj.painted trivial)
  | ready =>
      cases (hmay : o = .framebuffer)
      cases h
      have hpainted : c.shared.1.state.painted = true := hj.painted trivial
      exact {
        reader := fun fresh hrole => by cases hrole
        listens := fun h => h.elim
        painted := fun h => h.elim
        copied := fun frame hrole => by
          cases hrole
          rw [hpainted] }
  | copied frame => exact hmay.elim
  | failed => exact hmay.elim

/-! ## Every run -/

/-- What one timely step keeps. -/
theorem kept_of_timely {c : Tasks (SessionSig.sum AppSig) Refusal (Option Framebuffer) Shared Own}
    {i : Nat} {m : Choice} {o : (SessionSig.sum AppSig).Op} {k : (SessionSig.sum AppSig).Resp o → Proc}
    {own own' : Own} {role : Role} {r : (SessionSig.sum AppSig).Resp o} {s' : Shared}
    (htimely : Timely c i m) (htask : c.tasks[i]? = some (.step o k, own))
    (hf : Follows freshness role (.step o k) Answers) (hj : Holds i role c.shared own)
    (h : serverDoes o m c.shared own = some (r, s', own')) :
    Tasks.Kept freshness Answers Holds c i role o r s' own' := by
  cases o with
  | inl o =>
      simp only [serverDoes, Option.map_eq_some_iff] at h
      obtain ⟨⟨r', i', own''⟩, hdoes, heq⟩ := h
      cases heq
      have hans : freshness.answers role (.inl o) r' := by
        cases role with
        | reader fresh =>
            obtain ⟨_, hwf, _⟩ := hj.reader fresh rfl
            exact reader_answers hf.1 hwf hdoes
        | _ => trivial
      refine ⟨hans, holds_own htimely htask hf.1 (hf.2 r' hans) hj hdoes, ?_⟩
      intro j p own₂ role₂ hji hget hf₂ hj₂
      rw [sessionDoes_after hdoes]
      exact holds_others htimely htask hf.1 hj hji hget hf₂ hj₂ r'
  | inr o =>
      simp only [serverDoes, Option.map_eq_some_iff] at h
      obtain ⟨⟨r', a'⟩, hdoes, heq⟩ := h
      cases heq
      have hkeep : ∀ {j role own}, Holds j role c.shared own → Holds j role (c.shared.1, a') own :=
        fun h => ⟨h.reader, h.listens, h.painted, h.copied⟩
      refine ⟨?_, ?_, fun j p own₂ role₂ _ _ _ hj₂ => hkeep hj₂⟩
      · cases role <;> trivial
      · cases role with
        | other => exact hkeep hj
        | early => exact hkeep hj
        | _ => exact hf.1.elim

theorem system_sound {z : Decompress} (width height : UInt16) (name : String) (time : Duration)
    (continuous : Bool) (n : Nat) (d : Decoders z) (shots : List (ServerConfig × Nat))
    (others : List Other) :
    Tasks.Sound freshness Answers Holds
      (system width height name time continuous n d shots others) := by
  refine ⟨fun j p own hget => ?_⟩
  cases j with
  | zero =>
      cases hget
      refine ⟨.reader false, reader_follows continuous n d, ?_⟩
      exact {
        reader := fun fresh hrole => by
          cases hrole
          exact ⟨rfl, black_wellFormed width height, fun h => by cases h⟩
        listens := fun h => h.elim
        painted := fun h => h.elim
        copied := fun frame h => by cases h }
  | succ j =>
      have hmem : (p, own) ∈ shots.map (fun s => (shotProc s.1 s.2, Own.new)) ++
          others.map (fun t => (t.proc, Own.new)) := List.mem_of_getElem? (i := j) hget
      rw [List.mem_append, List.mem_map, List.mem_map] at hmem
      rcases hmem with ⟨shot, _, heq⟩ | ⟨t, _, heq⟩
      · cases heq
        exact ⟨.early, shot_follows shot.1 shot.2, holds_of_idle (fun _ h => by cases h)
          (fun h => h) (fun h => h) (fun _ h => by cases h)⟩
      · cases heq
        exact ⟨.other, other_follows t, holds_of_idle (fun _ h => by cases h)
          (fun h => h) (fun h => h) (fun _ h => by cases h)⟩

/-- **A screenshot is never a black unpainted screen**, in a run whose steps
are all timely: the frame a screenshot answers with was copied out of the
session while the painted flag was up. -/
theorem freshFrame_painted {z : Decompress} {width height : UInt16} {name : String}
    {time : Duration} {continuous : Bool} {n : Nat} {d : Decoders z}
    {shots : List (ServerConfig × Nat)} {others : List Other}
    {c : Tasks (SessionSig.sum AppSig) Refusal (Option Framebuffer) Shared Own}
    {frame : Framebuffer} {own : Own}
    (hrun : Tasks.Reaches serverDoes Timely
      (system width height name time continuous n d shots others) c)
    (hanswer : (.ret (some frame), own) ∈ c.tasks) : own.copied = some (frame, true) := by
  have hsound := hrun.sound (system_sound width height name time continuous n d shots others)
    (fun c i m o k l role r s' l' htimely _ htask hf hj hdoes =>
      kept_of_timely htimely htask hf hj hdoes)
  obtain ⟨j, hget⟩ := List.mem_iff_getElem?.mp hanswer
  obtain ⟨role, hf, hj⟩ := hsound.tasks j _ _ hget
  cases role with
  | copied frame' =>
      cases (hf : some frame = some frame')
      exact hj.copied frame rfl
  | reader fresh => cases (hf : some frame = none)
  | other => cases (hf : some frame = none)
  | _ => exact hf.elim

/-! ## With and without a resize -/

/-- The reader paints the one pixel of the screen, and a screenshot finds it
painted and asks for an update. -/
def painting : List (Nat × Choice) := paints ++ announces ++ moves 1 [[], [], [], [], [], [], []]

/-- The reader handles a DesktopSize rect, and the screenshot is told. -/
def resizing : List (Nat × Choice) := resizes ++ moves 1 [[]]

/-- The screenshot's wait ends in the fallback. -/
def fallingBack : List (Nat × Choice) := [(1, ⟨.ok [], true⟩), (1, ⟨.ok [], false⟩)]

/-- One reader and one screenshot. -/
def one : Tasks (SessionSig.sum AppSig) Refusal (Option Framebuffer) Shared Own :=
  system 1 1 "desktop" 0 false 2 (Decoders.new stored) [(⟨0, 5 * 1000000000⟩, 2)] []

/-- A step that is timely whatever the other tasks rely on. -/
def timely? (c : Tasks (SessionSig.sum AppSig) Refusal (Option Framebuffer) Shared Own) (i : Nat)
    (_m : Choice) : Bool :=
  match c.tasks[i]? with
  | some (.step (.inl (.desktopSize _ _)) _, _) => false
  | some (.step (.inl .recv) _, _) => c.shared.1.state.painted
  | _ => true

theorem timely_of_check
    (c : Tasks (SessionSig.sum AppSig) Refusal (Option Framebuffer) Shared Own) (i : Nat)
    (m : Choice) (h : timely? c i m = true) : Timely c i m where
  resize width height k own htask := by
    rw [timely?, htask] at h
    cases h
  fallback k own htask _ _ := by
    rw [timely?, htask] at h
    exact h

/-- A screenshot of a painted screen that falls back. -/
theorem freshFrame_painted_fallback :
    ∃ c frame own, Tasks.Reaches serverDoes Timely one c ∧ (.ret (some frame), own) ∈ c.tasks ∧
      own.copied = some (frame, true) ∧ frame = ⟨1, 1, [9, 8, 7, 255]⟩ := by
  have hend : ((one.runWhile timely? serverDoes (painting ++ fallingBack)).bind
      (fun c => c.tasks[1]?)).map (fun t => t.1.value?) = some (some (some ⟨1, 1, [9, 8, 7, 255]⟩)) := by
    decide +kernel
  obtain ⟨⟨p, own⟩, hget, hvalue⟩ := Option.map_eq_some_iff.mp hend
  obtain ⟨c, hrun, hget⟩ := Option.bind_eq_some_iff.mp hget
  cases value?_eq_some hvalue
  have hreach := Tasks.reaches_runWhile timely_of_check hrun .start
  have hmem := List.mem_of_getElem? hget
  exact ⟨c, _, own, hreach, hmem, freshFrame_painted hreach hmem, rfl⟩

/-- A resize that comes while a screenshot waits: it answers with the black
screen. -/
theorem not_painted_resize :
    ¬ ∀ c frame own, Tasks.Reaches serverDoes (fun _ _ _ => True) one c →
      (.ret (some frame), own) ∈ c.tasks → own.copied = some (frame, true) := by
  intro hall
  have hend : ((one.run serverDoes (painting ++ resizing ++ fallingBack)).bind
      (fun c => c.tasks[1]?)).map (fun t => (t.1.value?, t.2.copied))
        = some (some (some (.black 2 1)), some (.black 2 1, false)) := by
    decide +kernel
  obtain ⟨⟨p, own⟩, hget, heq⟩ := Option.map_eq_some_iff.mp hend
  obtain ⟨c, hrun, hget⟩ := Option.bind_eq_some_iff.mp hget
  obtain ⟨hvalue, hcopied⟩ := Prod.mk.inj heq
  cases value?_eq_some hvalue
  have hpainted := hall c _ own (Tasks.reaches_run hrun .start) (List.mem_of_getElem? hget)
  rw [hcopied] at hpainted
  cases hpainted

end Bolide.Server
