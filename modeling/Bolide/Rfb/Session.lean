/-
Bolide.Rfb.Session — the state a session's tasks and handles share
(`bolide-rfb/src/session.rs`), and the operations they share it by.

`Inner` is touched by the reader task, the writer task and every handle, one
atomic operation at a time: an atomic load, store or `fetch_add`, one
critical section of the state mutex, one `send` on a channel. `Op` lists
those operations, together with what a task does to its own connection, and
`exec` says what each does for the reader. A task is then a `Lib.Prog` over
`SessionSig`.

Translation notes. The broadcast channel is the list of every event sent on
it; what a receiver sees of that list is `Bolide.Lib.Broadcast`, and each
task has its own receiver, so `Bolide.Rfb.Handle` says what `subscribe` and
`recv` do. The `u64`
counters are natural numbers. The reason of a `Disconnected` is the error
itself, where the source has its text. A read that the server does not
complete ends as `Ending` says: the stream is closed, or it stays silent.
-/
import Bolide.Rfb.Framebuffer
import Bolide.Lib.Prog
import Bolide.Lib.Broadcast

namespace Bolide.Rfb

open Lib

/-! ## Events and commands -/

/-- Something the server said on its own initiative. -/
inductive ServerEvent where
  | painted (generation : Nat)
  | resized (width height : UInt16)
  | cutText (text : String)
  | bell
  | disconnected (reason : Option Error)
  deriving DecidableEq, Repr

/-- `EVENT_CAPACITY`: how many events the channel keeps. -/
def eventCapacity : Nat := 256

/-- What wakes a task that waits for an event under a timeout. -/
inductive Wakeup where
  | received (got : Broadcast.Received ServerEvent)
  | closed
  | elapsed
  deriving DecidableEq, Repr

/-- One unit of work for the writer task. -/
inductive Command where
  | write (bytes : List UInt8)
  | request (incremental : Bool)
  deriving DecidableEq, Repr

/-! ## Shared state -/

/-- Everything a caller can read synchronously. -/
structure State where
  fb : Framebuffer
  painted : Bool
  lastCutText : Option String
  deriving DecidableEq, Repr

/-- The parts of the session two tasks and every handle share. -/
structure Inner where
  state : State
  events : List ServerEvent
  commands : List Command
  commandsOpen : Bool
  shutdown : Bool
  desktopName : String
  connected : Bool
  generation : Nat
  updatesBegun : Nat
  lastPaintedUpdate : Nat
  outstanding : Nat
  needsFull : Bool
  deriving DecidableEq, Repr

namespace Inner

/-- The session `connect_stream` starts with. -/
def new (width height : UInt16) (name : String) : Inner where
  state := { fb := .black width height, painted := false, lastCutText := none }
  events := []
  commands := []
  commandsOpen := true
  shutdown := false
  desktopName := name
  connected := true
  generation := 0
  updatesBegun := 0
  lastPaintedUpdate := 0
  outstanding := 0
  needsFull := true

def setFb (i : Inner) (fb : Framebuffer) : Inner := { i with state := { i.state with fb } }

def emit (i : Inner) (event : ServerEvent) : Inner := { i with events := i.events ++ [event] }

/-- The critical section of a DesktopSize rect. -/
def desktopSize (i : Inner) (w h : UInt16) : Inner :=
  { i with state := { i.state with fb := .black w h, painted := false } }

def setPainted (i : Inner) : Inner := { i with state := { i.state with painted := true } }

def setCutText (i : Inner) (text : String) : Inner :=
  { i with state := { i.state with lastCutText := some text } }

end Inner

/-! ## Operations -/

/-- One atomic step of a task. -/
inductive Op where
  -- the task's connection
  | fill (n : Nat)
  | write (bytes : List UInt8)
  | pollWrite (bytes : List UInt8)
  | arm
  | disarm
  -- the system RNG
  | random (n : Nat)
  -- the state mutex
  | draw (f : Framebuffer → Outcome Framebuffer)
  | desktopSize (w h : UInt16)
  | setPainted
  | setCutText (text : String)
  | painted
  | framebuffer
  | size
  -- the atomics
  | beginUpdate
  | loadUpdatesBegun
  | nextGeneration
  | storeLastPainted (update : Nat)
  | loadLastPainted
  | storeOutstanding (n : Nat)
  | addOutstanding
  | storeNeedsFull (full : Bool)
  | swapNeedsFull
  | loadConnected
  | swapConnected
  -- the channels
  | emit (event : ServerEvent)
  | push (command : Command)
  | pop
  | closeCommands
  | signalShutdown
  -- the task's receiver
  | subscribe
  | recv

/-- The type of an operation's answer. -/
abbrev Op.Resp : Op → Type
  | .fill _ => Outcome (List UInt8)
  | .write _ => Outcome Unit
  | .pollWrite _ => Outcome Nat
  | .random _ => Except String (List UInt8)
  | .draw _ => Outcome Unit
  | .painted => Bool
  | .framebuffer => Framebuffer
  | .size => UInt16 × UInt16
  | .beginUpdate => Nat
  | .loadUpdatesBegun => Nat
  | .nextGeneration => Nat
  | .loadLastPainted => Nat
  | .swapNeedsFull => Bool
  | .loadConnected => Bool
  | .swapConnected => Bool
  | .push _ => Bool
  | .pop => Option Command
  | .recv => Wakeup
  | _ => Unit

abbrev SessionSig : Sig where
  Op := Op
  Resp := Op.Resp

/-- A task of the session. -/
abbrev Task (α : Type) := Prog SessionSig Stop α

/-- The task that performs one operation. -/
def op (o : Op) : Task o.Resp := .step o .ret

/-- `Conn::fill`. -/
def fill (n : Nat) : Task (List UInt8) := do
  let got ← op (.fill n)
  Prog.ofExcept got

/-- A decoder applied to the framebuffer under the state lock. -/
def draw (f : Framebuffer → Outcome Framebuffer) : Task Unit := do
  let done ← op (.draw f)
  Prog.ofExcept done

/-- How a read ends when the server sends no more. -/
inductive Ending where
  | closed
  | silent
  deriving DecidableEq, Repr

/-- What a task's operations act on: the bytes the server has still to
deliver, whether reads are under the timeout, and the shared state. -/
structure World where
  input : List UInt8
  armed : Bool
  inner : Inner

/-- `Conn::fill` on what the server sends: all of it, or how the wait ends. -/
def fillFrom (ending : Ending) (timeout : Duration) (armed : Bool) (n : Nat) (input : List UInt8) :
    Outcome (List UInt8) × List UInt8 :=
  if n ≤ input.length then (.ok (input.take n), input.drop n)
  else match ending, armed with
    | .closed, _ => (.error (.err (.io "early eof")), [])
    | .silent, true => (.error (.err (.timeout timeout)), [])
    | .silent, false => (.error .parked, [])

/-- What an operation does to the shared state, and its answer. -/
def execInner : (o : Op) → Inner → o.Resp × Inner
  -- these touch no shared state: a task alone has no connection and no receiver
  | .fill _, i => (.error .parked, i)
  | .write _, i => (.error .parked, i)
  | .pollWrite _, i => (.error .parked, i)
  | .random _, i => (.error "unavailable", i)
  | .subscribe, i => ((), i)
  | .recv, i => (.closed, i)
  | .arm, i => ((), i)
  | .disarm, i => ((), i)
  | .draw f, i =>
      match f i.state.fb with
      | .ok fb => (.ok (), i.setFb fb)
      | .error e => (.error e, i)
  | .desktopSize w h, i => ((), i.desktopSize w h)
  | .setPainted, i => ((), i.setPainted)
  | .setCutText text, i => ((), i.setCutText text)
  | .painted, i => (i.state.painted, i)
  | .framebuffer, i => (i.state.fb, i)
  | .size, i => ((i.state.fb.width, i.state.fb.height), i)
  | .beginUpdate, i => (i.updatesBegun + 1, { i with updatesBegun := i.updatesBegun + 1 })
  | .loadUpdatesBegun, i => (i.updatesBegun, i)
  | .nextGeneration, i => (i.generation + 1, { i with generation := i.generation + 1 })
  | .storeLastPainted update, i => ((), { i with lastPaintedUpdate := update })
  | .loadLastPainted, i => (i.lastPaintedUpdate, i)
  | .storeOutstanding n, i => ((), { i with outstanding := n })
  | .addOutstanding, i => ((), { i with outstanding := i.outstanding + 1 })
  | .storeNeedsFull full, i => ((), { i with needsFull := full })
  | .swapNeedsFull, i => (i.needsFull, { i with needsFull := false })
  | .loadConnected, i => (i.connected, i)
  | .swapConnected, i => (i.connected, { i with connected := false })
  | .emit event, i => ((), i.emit event)
  | .push command, i =>
      if i.commandsOpen then (true, { i with commands := i.commands ++ [command] })
      else (false, i)
  | .pop, i => (i.commands.head?, { i with commands := i.commands.tail })
  | .closeCommands, i => ((), { i with commandsOpen := false })
  | .signalShutdown, i => ((), { i with shutdown := true })

/-- One operation of a task of the session. -/
def exec (ending : Ending) (timeout : Duration) : Prog.Handler SessionSig World
  | .fill n, w =>
      let (got, input) := fillFrom ending timeout w.armed n w.input
      (got, { w with input })
  | .arm, w => ((), { w with armed := true })
  | .disarm, w => ((), { w with armed := false })
  | o, w =>
      let (got, inner) := execInner o w.inner
      (got, { w with inner })

/-! ## What the methods of `Inner` do -/

/-- A request is counted when it is sent. -/
def countRequest : Command → Task Unit
  | .request _ => op .addOutstanding
  | .write _ => pure ()

/-- `Inner::send`. -/
def send (command : Command) : Task (Except Error Unit) := do
  let connected ← op .loadConnected
  if connected = false then return .error .closed
  else
    countRequest command
    let sent ← op (.push command)
    return if sent = true then .ok () else .error .closed

/-- `Inner::mark_dead`: announce death exactly once. -/
def markDead (reason : Option Error) : Task Unit := do
  let was ← op .swapConnected
  if was = true then
    op (.emit (.disconnected reason))
    op .signalShutdown
  else pure ()

end Bolide.Rfb
