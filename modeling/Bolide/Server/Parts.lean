/-
Bolide.Server.Parts — what each task of a server may do.

The tasks of the session keep to their roles. A handler that only looks at
the session watches. A handler of an action goes from `fresh` to `released`:
it reads the size, plans, waits for the hands, performs its plan op by op,
stamps the record of the last input, reads the cursor, and lets go of the
hands. The ghost state carries the plan, split where it stands.

`service_parts` says that every task of a server keeps to its part.
-/
import Bolide.Server.Computer
import Bolide.Rfb.RolesTheorems

namespace Bolide.Server

open Lib Prog Bolide.Rfb

/-! ## Parts -/

/-- An operation of a handler that looks at the session and asks it for
frames. -/
def Watches : (SessionSig.sum AppSig).Op → Prop
  | .inl o => match o with
      | .painted | .subscribe | .loadUpdatesBegun | .loadConnected | .addOutstanding => True
      | .push command => ∃ incremental, command = .request incremental
      | .recv | .loadLastPainted | .framebuffer => True
      | _ => False
  | .inr .stampInput => False
  | .inr _ => True

/-- Where an operation of a plan stands. -/
inductive Step where
  | before
  | check
  | push
  | now
  | doze
  | after (failed : Bool)
  | record
  deriving DecidableEq

/-- What is left to do once a plan is through. -/
inductive Finish where
  | stamp
  | read
  | release (cursor : Coordinate)
  deriving DecidableEq

/-- The part of a task of a server. A plan is what is done of it and what is
not. -/
inductive Part where
  | session (role : Rfb.Role)
  | watching
  | fresh (action : ComputerAction)
  | rejected (e : ActionError)
  | queued (action : ComputerAction) (ops : List RfbOp)
  | acting (action : ComputerAction) (done : List RfbOp) (op : RfbOp) (rest : List RfbOp)
      (step : Step)
  | ending (action : ComputerAction) (done rest : List RfbOp) (finish : Finish)
  | released (action : ComputerAction) (done rest : List RfbOp) (cursor : Coordinate)
  | dropping (action : ComputerAction) (done rest : List RfbOp)
  | dropped (action : ComputerAction) (done rest : List RfbOp)

/-- The operation sends an event. -/
def RfbOp.isInput (op : RfbOp) : Bool := op.input?.isSome

/-- Only `cursor_position` tells where the cursor is. -/
def ComputerAction.tells (cursor : Coordinate) : ComputerAction → Option Coordinate
  | .cursorPosition => some cursor
  | _ => none

/-- What comes once a plan is through. -/
def Finish.of (ops : List RfbOp) : Finish := if ops.any RfbOp.isInput = true then stamp else read

namespace Part

/-- What may be done in each part. -/
def may : Part → ServeSig.Op → Prop
  | session role, o => ∃ o', o = .inl (.inl o') ∧ role.may o'
  | watching, o => ∃ o', o = .inl o' ∧ Watches o'
  | fresh _, o => o = .inl (.inl .size)
  | queued _ _, o => o = .inr .lock
  | acting _ _ _ _ .before, o => o = .inr .suspend
  | acting _ _ _ _ .check, o => o = .inl (.inl .loadConnected)
  | acting _ _ op _ .push, o =>
      ∃ event, op.input? = some event ∧ o = .inl (.inl (.push (.write event.message)))
  | acting _ _ _ _ .now, o => o = .inl (.inr .now)
  | acting _ _ _ _ .doze, o => ∃ deadline, o = .inl (.inr (.sleepUntil deadline))
  | acting _ _ _ _ (.after _), o => o = .inr .suspend
  | acting _ _ op _ .record, o =>
      ∃ x y buttons, op = .pointer x y buttons ∧ o = .inr (.setCursor (position x y))
  | ending _ _ _ .stamp, o => o = .inl (.inr .stampInput)
  | ending _ _ _ .read, o => o = .inr .cursor
  | ending _ _ _ (.release _), o => o = .inr .unlock
  | released _ _ _ _, o => ∃ o', o = .inl o' ∧ Watches o'
  | dropping _ _ _, o => o = .inr .unlock
  | _, _ => False

/-- The size is read: the action is planned. -/
def planned (drag : DragPacing) (action : ComputerAction) (size : UInt16 × UInt16) : Part :=
  match plan action { width := size.1, height := size.2, drag } with
  | .ok ops => queued action ops
  | .error e => rejected e

/-- The next operation of a plan, if there is one. -/
def begin (action : ComputerAction) (done : List RfbOp) : List RfbOp → Part
  | [] => ending action done [] (.of done)
  | op :: rest => acting action done op rest .before

/-- The first step of an operation. -/
def first : RfbOp → Step
  | .sleep _ => .now
  | _ => .check

/-- A session that is connected is sent the event. -/
def asked (connected : Bool) : Step := if connected = true then .push else .after true

/-- What follows an operation that is done. -/
def followed (action : ComputerAction) (done : List RfbOp) (op : RfbOp) (rest : List RfbOp) :
    Part :=
  match op with
  | .pointer _ _ _ => acting action done op rest .record
  | _ => begin action (done ++ [op]) rest

/-- What follows an `.await` before an operation. -/
def resumed (action : ComputerAction) (done : List RfbOp) (op : RfbOp) (rest : List RfbOp)
    (dropped : Bool) : Part :=
  if dropped = true then dropping action done (op :: rest)
  else acting action done op rest (first op)

/-- What follows an `.await` after it. -/
def returned (action : ComputerAction) (done : List RfbOp) (op : RfbOp) (rest : List RfbOp)
    (failed dropped : Bool) : Part :=
  match failed, dropped with
  | true, true => dropping action done (op :: rest)
  | true, false => ending action done (op :: rest) (.of (done ++ op :: rest))
  | false, true => dropping action (done ++ [op]) rest
  | false, false => followed action done op rest

/-- Where an operation leaves a task. -/
def next (continuous : Bool) (drag : DragPacing) :
    Part → (o : ServeSig.Op) → ServeSig.Resp o → Part
  | session role, .inl (.inl o), r => session (role.next continuous o r)
  | session role, _, _ => session role
  | watching, _, _ => watching
  | fresh action, .inl (.inl .size), size => planned drag action size
  | fresh action, _, _ => fresh action
  | rejected e, _, _ => rejected e
  | queued action ops, .inr .lock, _ => begin action [] ops
  | queued action ops, _, _ => queued action ops
  | acting action done op rest .before, .inr .suspend, gone => resumed action done op rest gone
  | acting action done op rest .check, .inl (.inl .loadConnected), connected =>
      acting action done op rest (asked connected)
  | acting action done op rest .push, .inl (.inl (.push _)), accepted =>
      acting action done op rest (.after (!accepted))
  | acting action done op rest .now, .inl (.inr .now), _ => acting action done op rest .doze
  | acting action done op rest .doze, .inl (.inr (.sleepUntil _)), _ =>
      acting action done op rest (.after false)
  | acting action done op rest (.after failed), .inr .suspend, gone =>
      returned action done op rest failed gone
  | acting action done op rest .record, .inr (.setCursor _), _ => begin action (done ++ [op]) rest
  | acting action done op rest stage, _, _ => acting action done op rest stage
  | ending action done rest .stamp, .inl (.inr .stampInput), _ => ending action done rest .read
  | ending action done rest .read, .inr .cursor, cursor =>
      ending action done rest (.release cursor)
  | ending action done rest (.release cursor), .inr .unlock, _ => released action done rest cursor
  | ending action done rest finish, _, _ => ending action done rest finish
  | released action done rest cursor, _, _ => released action done rest cursor
  | dropping action done rest, .inr .unlock, _ => dropped action done rest
  | dropping action done rest, _, _ => dropping action done rest
  | dropped action done rest, _, _ => dropped action done rest

/-- How a task may end without a value. -/
def fails : Part → Left → Prop
  | session _, _ => True
  | watching, _ => True
  | rejected e, left => left = .refused (.api (fromAction e))
  | released _ _ _ _, _ => True
  | dropped _ _ _, left => left = .dropped
  | _, _ => False

/-- What the session answers its own tasks. -/
def answers : Part → (o : ServeSig.Op) → ServeSig.Resp o → Prop
  | session _, .inl (.inl o), r => Answered o r
  | _, _, _ => True

/-- What a task returns in the end. -/
def Ended (reply : Reply) : Part → Prop
  | session _ => reply = .nothing
  | watching => ∀ response, reply ≠ .computer response
  | released action _ rest cursor => rest = [] ∧ ∃ response, reply = .computer response ∧
      response.coordinate = action.tells cursor
  | _ => False

end Part

/-- The parts of the tasks of a server, as a discipline. -/
def parts (continuous : Bool) (drag : DragPacing) : Discipline ServeSig Left Part where
  may := Part.may
  answers := Part.answers
  next := Part.next continuous drag
  fails := Part.fails

/-- The part a job begins in. -/
def Job.part : Job → Part
  | .clock _ => .watching
  | .close => .session (.closer .swap)
  | .clipboard text => .session (.sender (.write (clientCutText text)) .check)
  | .screenshot _ => .watching
  | .computer _ action => .fresh action

/-- The part of each task of a server. -/
def serviceParts (continuous : Bool) (jobs : List Job) : Nat → Part
  | 0 => .session (sessionRoles continuous [] 0)
  | 1 => .session (sessionRoles continuous [] 1)
  | 2 => .session (sessionRoles continuous [] 2)
  | j + 3 => (jobs[j]?.map Job.part).getD .watching

/-! ## Handlers that watch -/

variable {continuous : Bool} {drag : DragPacing}

theorem waitPainted_watches (timeout : Duration) (floor : Nat) : ∀ n,
    (waitPainted timeout floor n).Only (fun o => Watches (.inl o)) (fun _ => True)
  | 0 => trivial
  | n + 1 => by
      have ih := waitPainted_watches timeout floor n
      refine ⟨trivial, fun woken => ?_⟩
      match woken with
      | .elapsed => trivial
      | .closed => trivial
      | .received (.lagged _) => exact ih
      | .received (.event (.disconnected _)) => trivial
      | .received (.event (.resized _ _)) => exact ih
      | .received (.event (.cutText _)) => exact ih
      | .received (.event .bell) => exact ih
      | .received (.event (.painted _)) =>
          refine ⟨trivial, fun last => ?_⟩
          show Only _ _ (if floor < last then pure () else waitPainted timeout floor n)
          split
          · trivial
          · exact ih

theorem refresh_watches (n : Nat) (incremental : Bool) (timeout : Duration) :
    (refresh n incremental timeout).Only (fun o => Watches (.inl o)) (fun _ => True) := by
  refine ⟨trivial, fun _ => ⟨trivial, fun floor => ⟨trivial, fun connected => ?_⟩⟩⟩
  cases connected with
  | false => trivial
  | true =>
      refine ⟨trivial, fun _ => ⟨⟨incremental, rfl⟩, fun sent => ?_⟩⟩
      cases sent with
      | false => trivial
      | true =>
          exact (waitPainted_watches timeout floor n).bind (fun _ _ => ⟨trivial, fun _ => trivial⟩)

theorem settle_watches (config : ServerConfig) (lastInput : Option Duration) :
    (settle config lastInput).Only Watches (fun _ => True) := by
  cases lastInput with
  | none => trivial
  | some at' =>
      refine ⟨trivial, fun (now : Duration) => ?_⟩
      show Only _ _ (if now < at' + config.inputSettle then _ else _)
      split
      · exact ⟨trivial, fun _ => ⟨trivial, fun _ => trivial⟩⟩
      · trivial

theorem freshFrame_watches (config : ServerConfig) (n : Nat) :
    (freshFrame config n).Only Watches (fun _ => True) := by
  refine ⟨trivial, fun lastInput => (settle_watches config lastInput).bind (fun _ _ => ?_)⟩
  refine ⟨trivial, fun painted => ?_⟩
  cases painted with
  | false =>
      refine (refresh_watches n false config.frameTimeout).call.bind (fun got _ => ?_)
      cases got <;> trivial
  | true =>
      refine (refresh_watches n true _).call.bind (fun got _ => ?_)
      unfold answerPainted
      split
      · trivial
      · exact ⟨trivial, fun _ => trivial⟩
      · trivial

theorem runClock_watches : ∀ ticks, (runClock ticks).Only Watches (fun _ => True)
  | [] => trivial
  | _ :: rest => ⟨trivial, fun _ => runClock_watches rest⟩

/-- A part in which a task watches. -/
def Part.Watching : Part → Prop
  | .watching => True
  | .released _ _ _ _ => True
  | _ => False

/-- A task that watches keeps its part. -/
theorem watches_follows {α : Type} {p : ServerTask α} (h : p.Only Watches (fun _ => True))
    {part : Part} (hpart : part.Watching) :
    Follows (parts continuous drag) part (serve p) (fun _ part' => part' = part) := by
  have hmay : ∀ o, Watches o → part.may (.inl o) := by
    intro o ho
    cases part with
    | watching => exact ⟨o, rfl, ho⟩
    | released action done rest cursor => exact ⟨o, rfl, ho⟩
    | _ => exact hpart.elim
  have hfails : ∀ left, part.fails left := by
    intro left
    cases part with
    | watching => trivial
    | released action done rest cursor => trivial
    | _ => exact hpart.elim
  have hnext : ∀ o r, part.next continuous drag o r = part := by
    intro o r
    cases part with
    | watching => rfl
    | released action done rest cursor => rfl
    | _ => exact hpart.elim
  have hcall : (p.call : HandlerTask (Except Refusal α)).Only (Sum.elim Watches (fun _ => False))
      (fun ended => ∀ a, ended = .ok a → True) := h.call
  refine follows_bind (follows_of_only (D := parts continuous drag) (g := part) ?_
    (fun o r _ => hnext o r) hfails hcall) (fun ended part' hq => ?_)
  · intro o ho
    cases o with
    | inl o => exact hmay o ho
    | inr o => exact ho.elim
  · obtain ⟨_, rfl⟩ := hq
    cases ended with
    | ok a => rfl
    | error e => exact hfails _

/-! ## The tasks of the session -/

/-- A task of the session keeps to its role. -/
theorem background_follows {p : Rfb.Task Returned} {role : Rfb.Role}
    (h : Follows (protocol continuous) role p Role.Ended) :
    Follows (parts continuous drag) (.session role) (background p) Part.Ended := by
  have hinner : Follows ((parts continuous drag).inl
      (fun part (_ : Refusal) => ∃ role', part = .session role'))
      (.session role) p.call (fun _ part => ∃ role', part = .session role') := by
    refine follows_call ?_
    refine h.map Part.session ?_ ?_ ?_ ?_ ?_
    · intro role' o hmay
      exact ⟨o, rfl, hmay⟩
    · intro role' o r _ hans
      exact hans
    · intro role' o r _
      rfl
    · intro role' e _
      exact ⟨role', rfl⟩
    · intro a role' _
      exact ⟨role', rfl⟩
  have hserve : Follows (parts continuous drag) (.session role) (serve p.call)
      (fun _ part => ∃ role', part = .session role') := by
    refine follows_bind (follows_call (Q := fun _ part => ∃ role', part = .session role') hinner)
      (fun ended part hpart => ?_)
    obtain ⟨role', rfl⟩ := hpart
    cases ended with
    | ok a => exact ⟨role', rfl⟩
    | error e => trivial
  refine follows_bind hserve (fun _ part hpart => ?_)
  obtain ⟨role', rfl⟩ := hpart
  rfl

/-! ## A handler of an action -/

/-- A handler goes on from an `.await`, or is dropped there. -/
theorem suspended_follows {part after : Part} (hmay : part.may (.inr .suspend))
    (hgoes : part.next continuous drag (.inr .suspend) false = after)
    (hdrops : ∃ action done rest,
      part.next continuous drag (.inr .suspend) true = .dropping action done rest) :
    Follows (parts continuous drag) part suspended (fun _ part' => part' = after) := by
  refine follows_perform hmay (fun gone _ => ?_)
  cases (gone : Bool) with
  | false => exact hgoes
  | true =>
      obtain ⟨action, done, rest, hdrops⟩ := hdrops
      show Follows (parts continuous drag) (part.next continuous drag (.inr .suspend) true) _ _
      rw [hdrops]
      exact ⟨rfl, fun _ _ => rfl⟩

/-- One call of the session. -/
theorem method_follows (action : ComputerAction) (done : List RfbOp) {op : RfbOp}
    (rest : List RfbOp) {event : Input} (hop : op.input? = some event) :
    Follows (parts continuous drag) (.acting action done op rest .check)
      (serve (method (sendOrFail (.write event.message)))) (fun sent part =>
        (sent = .ok () ∧ part = .acting action done op rest (.after false)) ∨
          (sent = .error .closed ∧ part = .acting action done op rest (.after true))) := by
  refine ⟨rfl, fun connected _ => ?_⟩
  cases (connected : Bool) with
  | false => exact .inr ⟨rfl, rfl⟩
  | true =>
      refine ⟨⟨event, hop, rfl⟩, fun accepted _ => ?_⟩
      cases (accepted : Bool) with
      | false => exact .inr ⟨rfl, rfl⟩
      | true => exact .inl ⟨rfl, rfl⟩

/-- What a handler awaits with the hands held, between two points where it
may be dropped. -/
theorem awaiting_follows {α : Type} {p : ServerTask α} {action : ComputerAction}
    {done rest : List RfbOp} {op : RfbOp} {R : α → Bool → Prop}
    (hp : Follows (parts continuous drag) (.acting action done op rest (Part.first op)) (serve p)
      (fun a part => ∃ failed, R a failed ∧ part = .acting action done op rest (.after failed))) :
    Follows (parts continuous drag) (.acting action done op rest .before) (awaiting p)
      (fun a part => ∃ failed, R a failed ∧
        part = .returned action done op rest failed false) := by
  refine follows_bind (suspended_follows rfl rfl ⟨_, _, _, rfl⟩) (fun _ part hpart => ?_)
  subst hpart
  refine follows_bind hp (fun a part hpart => ?_)
  obtain ⟨failed, hr, rfl⟩ := hpart
  have hdrops : ∃ action' done' rest', Part.returned action done op rest failed true =
      .dropping action' done' rest' := by
    cases failed with
    | false => exact ⟨_, _, _, rfl⟩
    | true => exact ⟨_, _, _, rfl⟩
  refine follows_bind (suspended_follows rfl rfl hdrops) (fun _ part hpart => ?_)
  exact ⟨failed, hr, hpart⟩

/-- How an operation ends, and where it leaves its handler. -/
def Part.Through (action : ComputerAction) (done : List RfbOp) (op : RfbOp) (rest : List RfbOp)
    (sent : Except Error Unit) (part : Part) : Prop :=
  (sent = .ok () ∧ part = .begin action (done ++ [op]) rest) ∨
    (sent = .error .closed ∧ op.isInput = true ∧
      part = .ending action done (op :: rest) (.of (done ++ op :: rest)))

/-- One operation of a plan. -/
theorem performOp_follows (action : ComputerAction) (done : List RfbOp) (op : RfbOp)
    (rest : List RfbOp) :
    Follows (parts continuous drag) (.acting action done op rest .before) (performOp op)
      (Part.Through action done op rest) := by
  have hcall : ∀ event : Input, op.input? = some event → Part.first op = .check →
      Follows (parts continuous drag) (.acting action done op rest .before)
        (awaiting (method (sendOrFail (.write event.message)))) (fun sent part =>
          ∃ failed : Bool, sent = (if failed = true then .error .closed else .ok ()) ∧
            part = .returned action done op rest failed false) := by
    intro event hop hfirst
    refine awaiting_follows ?_
    rw [hfirst]
    refine (method_follows action done rest hop).mono (fun sent part h => ?_)
    rcases h with ⟨rfl, rfl⟩ | ⟨rfl, rfl⟩
    · exact ⟨false, rfl, rfl⟩
    · exact ⟨true, rfl, rfl⟩
  cases op with
  | pointer x y buttons =>
      refine follows_bind (hcall (.pointer x y buttons) rfl rfl) (fun sent part h => ?_)
      obtain ⟨failed, rfl, rfl⟩ := h
      cases failed with
      | false => exact ⟨⟨x, y, buttons, rfl, rfl⟩, fun _ _ => .inl ⟨rfl, rfl⟩⟩
      | true => exact .inr ⟨rfl, rfl, rfl⟩
  | key keysym down =>
      refine (hcall (.key keysym down) rfl rfl).mono (fun sent part h => ?_)
      obtain ⟨failed, rfl, rfl⟩ := h
      cases failed with
      | false => exact .inl ⟨rfl, rfl⟩
      | true => exact .inr ⟨rfl, rfl, rfl⟩
  | sleep ms =>
      have hsleep : Follows (parts continuous drag) (.acting action done (.sleep ms) rest .now)
          (serve (sleep (ms.toNat * 1000000))) (fun _ part =>
            ∃ failed, failed = false ∧
              part = .acting action done (.sleep ms) rest (.after failed)) :=
        ⟨rfl, fun now _ => ⟨⟨_, rfl⟩, fun _ _ => ⟨false, rfl, rfl⟩⟩⟩
      refine follows_bind (awaiting_follows (R := fun _ failed => failed = false) hsleep)
        (fun _ part h => ?_)
      obtain ⟨failed, rfl, rfl⟩ := h
      exact .inl ⟨rfl, rfl⟩

/-- How a plan ends, and where it leaves its handler. -/
def Part.Performed (action : ComputerAction) (ops : List RfbOp) (outcome : Except Error Unit)
    (part : Part) : Prop :=
  (outcome = .ok () ∧ part = .ending action ops [] (.of ops)) ∨
    (outcome = .error .closed ∧ ∃ done op rest, ops = done ++ op :: rest ∧ op.isInput = true ∧
      part = .ending action done (op :: rest) (.of ops))

/-- A plan, from where it stands. -/
theorem execute_follows (action : ComputerAction) : ∀ (rest done : List RfbOp),
    Follows (parts continuous drag) (.begin action done rest) (execute rest)
      (Part.Performed action (done ++ rest))
  | [], done => by
      rw [List.append_nil]
      exact .inl ⟨rfl, rfl⟩
  | op :: rest, done => by
      refine follows_bind (performOp_follows action done op rest) (fun sent part h => ?_)
      rcases h with ⟨rfl, rfl⟩ | ⟨rfl, hinput, rfl⟩
      · have ih := execute_follows action rest (done ++ [op])
        rw [List.append_assoc] at ih
        exact ih
      · exact .inr ⟨rfl, done, op, rest, rfl, hinput, rfl⟩

/-- The stamp, if there is one, comes before the cursor is read. -/
theorem stamp_follows (action : ComputerAction) (done rest ops : List RfbOp) :
    Follows (parts continuous drag) (.ending action done rest (.of ops)) (stamp ops)
      (fun _ part => part = .ending action done rest .read) := by
  unfold stamp Finish.of
  by_cases h : ops.any RfbOp.isInput = true
  · rw [if_pos h, if_pos (show ops.any (fun op => op.input?.isSome) = true from h)]
    exact ⟨rfl, fun _ _ => rfl⟩
  · rw [if_neg h, if_neg (show ¬ ops.any (fun op => op.input?.isSome) = true from h)]
    rfl

/-- What a handler that is through answers. -/
theorem respond_follows (config : HandlerConfig) (n : Nat) (action : ComputerAction)
    (done : List RfbOp) (cursor : Coordinate) :
    Follows (parts continuous drag) (.released action done [] cursor)
      (respond config n cursor action >>= fun response => pure (Reply.computer response))
      Part.Ended := by
  cases action with
  | screenshot =>
      show Follows _ _ ((serve (freshFrame config.toServerConfig n) >>= _) >>= _) _
      rw [bind_assoc]
      refine follows_bind (watches_follows (freshFrame_watches _ n) trivial)
        (fun frame part hpart => ?_)
      subst hpart
      exact ⟨rfl, _, rfl, rfl⟩
  | _ => exact ⟨rfl, _, rfl, rfl⟩

/-- A request that has been planned. -/
theorem perform_follows (config : HandlerConfig) (n : Nat) (action : ComputerAction)
    (ops : List RfbOp) :
    Follows (parts continuous drag) (.queued action ops)
      (perform config n action ops >>= fun response => pure (Reply.computer response))
      Part.Ended := by
  refine ⟨rfl, fun _ _ => ?_⟩
  show Follows _ (Part.begin action [] ops) ((execute ops >>= _) >>= _) _
  rw [bind_assoc]
  refine follows_bind (execute_follows action ops []) (fun outcome part h => ?_)
  have hrest : ∃ done rest, part = .ending action done rest (.of ops) ∧
      ((outcome = .ok () ∧ rest = []) ∨ outcome = .error .closed) := by
    rcases h with ⟨rfl, rfl⟩ | ⟨rfl, done, op, rest, _, _, rfl⟩
    · exact ⟨ops, [], rfl, .inl ⟨rfl, rfl⟩⟩
    · exact ⟨done, op :: rest, rfl, .inr rfl⟩
  obtain ⟨done, rest, rfl, houtcome⟩ := hrest
  show Follows _ _ ((stamp ops >>= _) >>= _) _
  rw [bind_assoc]
  refine follows_bind (stamp_follows action done rest ops) (fun _ part hpart => ?_)
  subst hpart
  refine ⟨rfl, fun cursor _ => ⟨rfl, fun _ _ => ?_⟩⟩
  rcases houtcome with ⟨rfl, rfl⟩ | rfl
  · exact respond_follows config n action done cursor
  · trivial

/-- A request for an action. -/
theorem computer_follows (config : HandlerConfig) (n : Nat) (action : ComputerAction) :
    Follows (parts continuous config.drag) (.fresh action)
      (computer config n action >>= fun response => pure (Reply.computer response))
      Part.Ended := by
  refine ⟨rfl, fun (size : UInt16 × UInt16) _ => ?_⟩
  show Follows _ (Part.planned config.drag action size) _ _
  unfold Part.planned
  cases hplan : plan action { width := size.1, height := size.2, drag := config.drag } with
  | error e =>
      simp only [Prog.call, Prog.bind, Prog.pure_eq, hplan]
      rfl
  | ok ops =>
      simp only [Prog.call, Prog.bind, Prog.pure_eq, hplan]
      exact perform_follows config n action ops

/-! ## Every task -/

theorem job_follows (config : HandlerConfig) (job : Job) :
    Follows (parts continuous config.drag) job.part (job.task config) Part.Ended := by
  cases job with
  | clock ticks =>
      refine follows_bind (watches_follows (runClock_watches ticks) trivial) (fun _ part hpart => ?_)
      subst hpart
      exact fun response h => by cases h
  | close => exact background_follows close_follows
  | clipboard text => exact background_follows (quietly_sender_follows _)
  | screenshot n =>
      refine follows_bind (watches_follows (freshFrame_watches _ n) trivial)
        (fun frame part hpart => ?_)
      subst hpart
      exact fun response h => by cases h
  | computer n action => exact computer_follows config n action

/-- Every task of a server keeps to its part. -/
theorem service_parts {z : Decompress} (width height : UInt16) (name : String) (continuous : Bool)
    (n m : Nat) (d : Decoders z) (time : Duration) (config : HandlerConfig) (jobs : List Job) :
    Tasks.Roles (parts continuous config.drag) Part.Ended (serviceParts continuous jobs)
      (service width height name continuous n m d time config jobs) := by
  intro j p own hget
  match j, hget with
  | 0, hget =>
      cases hget
      exact background_follows (Rfb.reader_follows n d)
  | 1, hget =>
      cases hget
      exact background_follows (writer_follows m)
  | 2, hget =>
      cases hget
      exact background_follows firstRequest_follows
  | j + 3, hget =>
      have hjob : (jobs.map (fun job => (job.task config, Own.new)))[j]? = some (p, own) := hget
      rw [List.getElem?_map, Option.map_eq_some_iff] at hjob
      obtain ⟨job, hjob, heq⟩ := hjob
      cases heq
      simp only [serviceParts, hjob, Option.map_some, Option.getD_some]
      exact job_follows config job

end Bolide.Server
