/-
Bolide.Rfb.Continuous — a session and the server at the other end.

`Bolide.Rfb.Handle` leaves what arrives on the connection open. Here the
server is one that speaks of updates: what the session writes is in flight
until the server has read it, a request that is read is pending until an
update answers it, and one update answers every pending request. The server
may also send an update nobody asked for. `linkDoes` is an operation of a
task of the session on both halves.

Translation notes. The server's moves are part of the scheduler's choice: an
operation is followed by any number of them, and at the start any number of
updates may be in flight. A request counts as being written from the moment
the writer has taken it off the queue until its last byte is written. Only
the first byte of a message, which is read without the timeout, can be the
type of an update.
-/
import Bolide.Rfb.Written

namespace Bolide.Rfb

open Lib

/-! ## The server -/

/-- What the server does by itself. -/
inductive PeerMove where
  | receive
  | answer
  | offer
  deriving DecidableEq, Repr

/-- The session and the connection: whether a message is half read, the
command that is being written, the requests on their way to the server and
those it has read, and the updates on their way back. -/
structure Link where
  inner : Inner
  armed : Bool
  writing : Option Command
  inFlight : Nat
  pending : Nat
  arriving : Nat

namespace Link

/-- A session that has just shaken hands. -/
def new (inner : Inner) (arriving : Nat) : Link where
  inner := inner
  armed := true
  writing := none
  inFlight := 0
  pending := 0
  arriving := arriving

/-- One move of the server: it reads a request, answers every request it has
read with one update, or sends one unasked. -/
def peer (l : Link) : PeerMove → Option Link
  | .receive =>
      if 0 < l.inFlight then some { l with inFlight := l.inFlight - 1, pending := l.pending + 1 }
      else none
  | .answer =>
      if 0 < l.pending then some { l with pending := 0, arriving := l.arriving + 1 } else none
  | .offer => some { l with arriving := l.arriving + 1 }

/-- The last byte of a command is written. -/
def written (l : Link) : Link :=
  match l.writing with
  | some (.request _) => { l with writing := none, inFlight := l.inFlight + 1 }
  | _ => { l with writing := none }

/-- What an operation does to the connection: an update that is read has
arrived. -/
def note (l : Link) : (o : Op) → o.Resp → Option Link
  | .disarm, _ => some { l with armed := false }
  | .arm, _ => some { l with armed := true }
  | .fill _, .ok bytes =>
      if l.armed = false ∧ bytes = [ServerMsg.framebufferUpdate] then
        if 0 < l.arriving then some { l with arriving := l.arriving - 1 } else none
      else some l
  | .pop, some command => some { l with writing := some command }
  | .pollWrite rest, .ok n => some (if rest.length ≤ n then l.written else l)
  | _, _ => some l

end Link

/-- What the scheduler decides: the operation's own choice, and what the
server does next. -/
structure LinkChoice where
  choice : Choice
  moves : List PeerMove

/-- One operation of one task of the session, and the server's moves after it. -/
def linkDoes : Does SessionSig Link Own LinkChoice := fun o m l own => do
  let (r, inner, own) ← sessionDoes o m.choice l.inner own
  let l ← Link.note { l with inner } o r
  let l ← m.moves.foldlM Link.peer l
  return (r, l, own)

/-- A session in continuous mode, and its server. -/
def linked {z : Decompress} (width height : UInt16) (name : String) (n m : Nat) (d : Decoders z)
    (calls : List Call) (arriving : Nat) : Tasks SessionSig Stop Returned Link Own where
  shared := .new (.new width height name) arriving
  tasks := (session width height name true n m d calls).tasks

/-! ## What the session asks for -/

/-- Somebody owes something: a request is queued, being written, in flight or
pending, or an update is in flight. -/
def Link.Owed (l : Link) : Prop :=
  (∃ incremental, .request incremental ∈ l.inner.commands) ∨
    (∃ incremental, l.writing = some (.request incremental)) ∨
    0 < l.inFlight ∨ 0 < l.pending ∨ 0 < l.arriving

/-- A command that is a request. -/
def Command.isRequest : Command → Bool
  | .request _ => true
  | .write _ => false

/-- How many requests the session has enqueued by itself: those of the reader
and that of `connect_stream`. -/
def ownRequests (t : List (Tasks.Entry SessionSig)) : Nat :=
  (accepted t).countP (fun a => (a.1 == 0 || a.1 == 2) && a.2.isRequest)

/-- The operation that follows the last rect of an update. -/
def Op.finishes : Op → Bool
  | .storeOutstanding _ => true
  | _ => false

/-- The operation that follows the first byte of an update. -/
def Op.begins : Op → Bool
  | .beginUpdate => true
  | _ => false

/-- How many updates the reader is past the last rect of. -/
def processed (t : List (Tasks.Entry SessionSig)) : Nat := t.countP (fun e => e.op.finishes)

end Bolide.Rfb
