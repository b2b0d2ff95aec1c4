/-
Bolide.Rfb.Handle — a session's handles, and its tasks side by side
(`bolide-rfb/src/session.rs`).

`refresh` is the one method of `SessionHandle` with a wait in it; the others
send one command, or announce death. Every task has a receiver of the
session's events and a connection of its own, and `sessionDoes` says what each
operation does when many tasks run on one session: `Lib.Tasks` interleaves
them.

Translation notes. What arrives on a connection is the scheduler's choice,
so a run of the reader stands for any server; so is how much of a write the
connection takes. `tokio::time::timeout` polls what it waits for first: a
wait ends by its timeout only when there is nothing to receive, and the
timer is otherwise free. The writer's wait for a command is a `select!` that
the shutdown ends too. The channel is closed
only when the session is dropped, and a task that waits holds it. `copied`
records the last framebuffer a task copied out, with the painted flag of
that moment; no task reads it. A loop is run for as many as `n` rounds.
-/
import Bolide.Rfb.Client
import Bolide.Lib.Tasks

namespace Bolide.Rfb

open Lib

/-! ## `refresh` -/

/-- The loop of `refresh`: until an update past `floor` has painted. -/
def waitPainted (timeout : Duration) (floor : Nat) : Nat → Task Unit
  | 0 => Prog.fail .parked
  | n + 1 => do
      let woken ← op .recv
      match woken with
      | .elapsed => Prog.fail (.err (.timeout timeout))
      | .received (.event (.painted _)) => do
          let last ← op .loadLastPainted
          if floor < last then pure () else waitPainted timeout floor n
      | .received (.event (.disconnected _)) => Prog.fail (.err .closed)
      | .received _ => waitPainted timeout floor n
      | .closed => Prog.fail (.err .closed)

/-- `SessionHandle::refresh`. -/
def refresh (n : Nat) (incremental : Bool) (timeout : Duration) : Task Framebuffer := do
  op .subscribe
  let floor ← op .loadUpdatesBegun
  let sent ← send (.request incremental)
  match sent with
  | .error e => Prog.fail (.err e)
  | .ok () => do
      waitPainted timeout floor n
      op .framebuffer

/-! ## The other methods -/

/-- `Inner::send`, for a method that returns what it returned. -/
def sendOrFail (command : Command) : Task Unit := do
  let sent ← send command
  match sent with
  | .ok () => pure ()
  | .error e => Prog.fail (.err e)

/-- `SessionHandle::pointer`. -/
def pointer (x y : UInt16) (buttons : UInt8) : Task Unit :=
  sendOrFail (.write (pointerEvent x y buttons))

/-- `SessionHandle::key`. -/
def key (keysym : UInt32) (down : Bool) : Task Unit :=
  sendOrFail (.write (keyEvent keysym down))

/-- `SessionHandle::key_burst`: several KeyEvents as one command. -/
def keyBurst (events : List (UInt32 × Bool)) : Task Unit :=
  sendOrFail (.write (events.flatMap (fun e => keyEvent e.1 e.2)))

/-- `SessionHandle::cut_text`. -/
def cutText (text : String) : Task Unit := sendOrFail (.write (clientCutText text))

/-- `SessionHandle::close`, and what dropping the last handle does. -/
def close : Task Unit := markDead none

/-! ## Side by side -/

/-- What a task of the session has of its own. -/
structure Own where
  next : Option Nat
  copied : Option (Framebuffer × Bool)
  deriving DecidableEq, Repr

/-- A task that has not begun. -/
def Own.new : Own where
  next := none
  copied := none

/-- What the scheduler decides: what the connection answers, and whether a
wait ends the other way than by what it waits for. -/
structure Choice where
  arrives : Except Error (List UInt8)
  elapsed : Bool

/-- One operation of one task of the session. -/
def sessionDoes : Does SessionSig Inner Own Choice
  | .fill n, m, i, own =>
      match m.arrives with
      | .ok bytes => if bytes.length = n then some (.ok bytes, i, own) else none
      | .error e => some (.error (.err e), i, own)
  | .pollWrite bytes, m, i, own =>
      match m.arrives with
      | .ok taken => if taken <+: bytes then some (.ok taken.length, i, own) else none
      | .error e => some (.error (.err e), i, own)
  | .pop, m, i, own =>
      if m.elapsed = true then
        if i.shutdown = true then some (none, i, own) else none
      else match i.commands with
        | [] => none
        | command :: rest => some (some command, { i with commands := rest }, own)
  | .subscribe, _, i, own => some ((), i, { own with next := some i.events.length })
  | .recv, m, i, own => do
      let next ← own.next
      match Broadcast.recv eventCapacity i.events next with
      | some (got, next') => some (.received got, i, { own with next := some next' })
      | none => if m.elapsed then some (.elapsed, i, own) else none
  | .framebuffer, _, i, own =>
      some (i.state.fb, i, { own with copied := some (i.state.fb, i.state.painted) })
  | o, _, i, own => some ((execInner o i).1, (execInner o i).2, own)

/-- The events a task has not been handed. -/
def Own.unread (own : Own) (i : Inner) : List ServerEvent :=
  match own.next with
  | none => []
  | some next => Broadcast.unread eventCapacity i.events next

end Bolide.Rfb
