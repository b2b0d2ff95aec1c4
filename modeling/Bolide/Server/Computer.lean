/-
Bolide.Server.Computer — how an action is performed
(`computer` in `bolide-server/src/http.rs`, `execute` in `actions.rs`).

A desktop has one pair of hands. `hands` is the mutex of `AppState`, with
the record of the cursor in it: a handler holds it from before its first
event until after its last.

`service` is a running server beside its session: the session's own tasks,
and any number of requests of every kind that does something to the session.

Translation notes. A `tokio` mutex is handed to one of those that wait for
it. A handler that is dropped while it holds nothing does no more: it is a
task that is not scheduled again. Where it holds the hands, each `.await` is
a point at which it may be dropped, before and after what is awaited, and
the drop of the guard unlocks them. What comes before the action is parsed,
the encoding of a frame as a PNG, and the answers of `/clipboard` are left
out.
-/
import Bolide.Server.Actions
import Bolide.Server.FreshFrame
import Bolide.Rfb.Writer

namespace Bolide.Server

open Lib Bolide.Rfb

/-! ## The hands -/

/-- The mutex, and bolide's own last PointerEvent behind it. -/
structure Hands where
  held : Bool
  cursor : Coordinate
  deriving DecidableEq, Repr

/-- What a handler does to the hands; `suspend` is an `.await` that yields,
and says whether the handler is dropped there. -/
inductive HandsOp where
  | lock
  | unlock
  | cursor
  | setCursor (cursor : Coordinate)
  | suspend

abbrev HandsOp.Resp : HandsOp → Type
  | .cursor => Coordinate
  | .suspend => Bool
  | _ => Unit

abbrev HandsSig : Sig where
  Op := HandsOp
  Resp := HandsOp.Resp

/-- One operation on the hands. -/
def Hands.exec : (o : HandsOp) → Choice → Hands → Option (o.Resp × Hands)
  | .lock, _, h => if h.held = true then none else some ((), { h with held := true })
  | .unlock, _, h => some ((), { h with held := false })
  | .cursor, _, h => some (h.cursor, h)
  | .setCursor cursor, _, h => some ((), { h with cursor })
  | .suspend, m, h => some (m.elapsed, h)

/-- Everything a handler of an action does. -/
abbrev ServeSig : Sig := (SessionSig.sum AppSig).sum HandsSig

/-- What the tasks of a server share. -/
abbrev Desk := (Inner × App) × Hands

/-- One operation of one task beside the session. -/
def serveDoes : Does ServeSig Desk Own Choice
  | .inl o, m, s, own => (serverDoes o m s.1 own).map (fun (r, i, own) => (r, (i, s.2), own))
  | .inr o, m, s, own => (Hands.exec o m s.2).map (fun (r, h) => (r, (s.1, h), own))

/-- Why a handler did not answer, or could not. -/
inductive Left where
  | refused (r : Refusal)
  | dropped
  deriving DecidableEq, Repr

/-- A handler, or another task of the server. -/
abbrev HandlerTask (α : Type) := Prog ServeSig Left α

/-- An operation on the hands. -/
def hand (o : HandsOp) : HandlerTask o.Resp := .step (.inr o) .ret

/-- What was already a task of the server. -/
def serve {α : Type} (p : ServerTask α) : HandlerTask α := do
  let ended ← p.call
  match ended with
  | .ok a => pure a
  | .error r => Prog.fail (.refused r)

/-- A method of the session, whose error the caller looks at. -/
def method (p : Rfb.Task Unit) : ServerTask (Except Error Unit) := do
  let ended ← p.call
  match ended with
  | .ok () => pure (.ok ())
  | .error (.err e) => pure (.error e)
  | .error stop => Prog.fail (fromStop stop)

/-- A point where a handler that holds the hands may be dropped. -/
def suspended : HandlerTask Unit := do
  let dropped ← hand .suspend
  if dropped = true then
    hand .unlock
    Prog.fail .dropped
  else pure ()

/-- `.await`, with the hands held. -/
def awaiting {α : Type} (p : ServerTask α) : HandlerTask α := do
  suspended
  let a ← serve p
  suspended
  return a

/-! ## `execute` -/

/-- Where a PointerEvent puts the cursor. -/
def position (x y : UInt16) : Coordinate := (Int32.ofNat x.toNat, Int32.ofNat y.toNat)

/-- One operation of a plan. -/
def performOp : RfbOp → HandlerTask (Except Error Unit)
  | .pointer x y buttons => do
      let sent ← awaiting (method (pointer x y buttons))
      match sent with
      | .error e => pure (.error e)
      | .ok () => do
          hand (.setCursor (position x y))
          return .ok ()
  | .key keysym down => awaiting (method (key keysym down))
  | .sleep ms => do
      awaiting (sleep (ms.toNat * 1000000))
      return .ok ()

/-- `execute`: hand a plan to the session, op by op. -/
def execute : List RfbOp → HandlerTask (Except Error Unit)
  | [] => pure (.ok ())
  | op :: rest => do
      let done ← performOp op
      match done with
      | .error e => pure (.error e)
      | .ok () => execute rest

/-! ## `computer` -/

/-- What a handler uses of `ServerConfig`. -/
structure HandlerConfig extends ServerConfig where
  drag : DragPacing
  deriving DecidableEq, Repr

/-- `impl From<ActionError> for ApiError`. -/
def fromAction (e : ActionError) : ApiError where
  code := match e with
    | .outOfBounds _ _ _ _ => .outOfBounds
    | .unknownKey _ => .unknownKey
  message := e.display

/-- `ComputerResponse`, with the frame its image is made of. -/
structure ComputerResponse where
  ok : Bool
  image : Option Framebuffer
  coordinate : Option Coordinate
  deriving DecidableEq, Repr

/-- Stamp the record of the last input, if the plan has one. -/
def stamp (ops : List RfbOp) : HandlerTask Unit :=
  if ops.any (fun op => op.input?.isSome) = true then serve (app .stampInput) else pure ()

/-- What an action is answered with once it is done. -/
def respond (config : HandlerConfig) (n : Nat) (cursor : Coordinate) :
    ComputerAction → HandlerTask ComputerResponse
  | .screenshot => do
      let frame ← serve (freshFrame config.toServerConfig n)
      return { ok := true, image := some frame, coordinate := none }
  | .cursorPosition => pure { ok := true, image := none, coordinate := some cursor }
  | _ => pure { ok := true, image := none, coordinate := none }

/-- `computer`, once its plan is made. -/
def perform (config : HandlerConfig) (n : Nat) (action : ComputerAction) (ops : List RfbOp) :
    HandlerTask ComputerResponse := do
  hand .lock
  let outcome ← execute ops
  stamp ops
  let cursor ← hand .cursor
  hand .unlock
  match outcome with
  | .error e => Prog.fail (.refused (.api (fromRfb e)))
  | .ok () => respond config n cursor action

/-- `computer`. -/
def computer (config : HandlerConfig) (n : Nat) (action : ComputerAction) :
    HandlerTask ComputerResponse := do
  let size ← serve (ses .size)
  match plan action { width := size.1, height := size.2, drag := config.drag } with
  | .error e => Prog.fail (.refused (.api (fromAction e)))
  | .ok ops => perform config n action ops

/-! ## A server beside its session -/

/-- What a task of the server returns: some answer a request. -/
inductive Reply where
  | nothing
  | frame (frame : Framebuffer)
  | computer (response : ComputerResponse)
  deriving DecidableEq, Repr

/-- One thing that goes on in a server. -/
inductive Job where
  -- time passes
  | clock (ticks : List Duration)
  -- the session is closed
  | close
  -- `POST /clipboard`
  | clipboard (text : String)
  -- `GET /screenshot`
  | screenshot (n : Nat)
  -- `POST /computer`
  | computer (n : Nat) (action : ComputerAction)

/-- Time passes. -/
def runClock : List Duration → ServerTask Unit
  | [] => pure ()
  | d :: rest => do
      app (.tick d)
      runClock rest

/-- A task of the session itself, or a call of it that is answered elsewhere. -/
def background (p : Rfb.Task Returned) : HandlerTask Reply := do
  let _ ← serve p.call
  return .nothing

/-- The task of one job. -/
def Job.task (config : HandlerConfig) : Job → HandlerTask Reply
  | .clock ticks => do
      serve (runClock ticks)
      return .nothing
  | .close => background (quietly Rfb.close)
  | .clipboard text => background (quietly (cutText text))
  | .screenshot n => do
      let frame ← serve (freshFrame config.toServerConfig n)
      return .frame frame
  | .computer n action => do
      let response ← Server.computer config n action
      return .computer response

/-- A server whose session has just been opened. -/
def service {z : Decompress} (width height : UInt16) (name : String) (continuous : Bool)
    (n m : Nat) (d : Decoders z) (time : Duration) (config : HandlerConfig) (jobs : List Job) :
    Tasks ServeSig Left Reply Desk Own where
  shared := ((.new width height name, { lastInput := none, time }),
    { held := false, cursor := (0, 0) })
  tasks := (sessionTasks continuous n m d []).map (fun p => (background p, .new)) ++
    jobs.map (fun job => (job.task config, .new))

/-! ## What the session receives -/

/-- The PointerEvent or KeyEvent the session accepts by a step. -/
def accepts? : Tasks.Entry ServeSig → Option Input
  | ⟨_, .inl (.inl (.push (.write bytes))), true⟩ => Input.ofMessage? bytes
  | _ => none

/-- The PointerEvents and KeyEvents the session has received. -/
def received (t : List (Tasks.Entry ServeSig)) : List Input := t.filterMap accepts?

/-- Those that task `i` sent. -/
def sentBy (i : Nat) (t : List (Tasks.Entry ServeSig)) : List Input :=
  received (t.filter (fun e => e.task = i))

/-- The task that acquires the hands by a step. -/
def acquires? : Tasks.Entry ServeSig → Option Nat
  | ⟨i, .inr .lock, _⟩ => some i
  | _ => none

/-- The tasks that have acquired the hands, in order. -/
def acquired (t : List (Tasks.Entry ServeSig)) : List Nat := t.filterMap acquires?

/-- The position of the last PointerEvent, `(0, 0)` if there is none. -/
def lastPosition (events : List Input) : Coordinate :=
  events.foldl (fun cursor event =>
    match event with
    | .pointer x y _ => position x y
    | .key _ _ => cursor) (0, 0)

end Bolide.Server
