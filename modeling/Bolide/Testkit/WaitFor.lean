/-
Bolide.Testkit.WaitFor — a test waits for what the client sends
(`Shared::record`, `read_loop` and `FakeServer::wait_for` of
`bolide-testkit/src/server.rs`).

An event is put in the log first and announced after; a test subscribes
first and scans the log after, and scans it again when it is told of a lag.
`Awaited` is the invariant of both orders: whatever is in the log and matches
has still to reach a test that waits.

Translation notes. A read loop is the list of events it reads, one for each
connection; one that is aborted takes no more steps. `timeout_at` polls the
receiver first, so a wait ends by its deadline only when there is nothing to
receive. Whether the serve loop still listens is the scheduler's choice. A
loop is run for as many as `n` rounds.
-/
import Bolide.Lib.Broadcast
import Bolide.Lib.Tasks
import Bolide.Testkit.Server

namespace Bolide.Testkit

open Lib Prog

/-! ## What is shared -/

/-- What wakes a test. -/
inductive Woken where
  | received (got : Broadcast.Received ClientEvent)
  | closed
  | elapsed

/-- One step on what a test can look at. -/
inductive SharedOp where
  -- the log
  | push (event : ClientEvent)
  | events
  -- the announcements
  | announce (event : ClientEvent)
  | subscribe
  | recv
  -- the serve loop
  | forward (event : ClientEvent)

abbrev SharedOp.Resp : SharedOp → Type
  | .events => List ClientEvent
  | .recv => Woken
  | .forward _ => Bool
  | _ => Unit

abbrev SharedSig : Sig where
  Op := SharedOp
  Resp := SharedOp.Resp

/-- How a wait ends without an event. -/
inductive Missed where
  | timeout
  | parked

abbrev SharedTask (α : Type) := Prog SharedSig Missed α

def shared (o : SharedOp) : SharedTask o.Resp := .step o .ret

/-! ## Recording and waiting -/

/-- `Shared::record`. -/
def record (event : ClientEvent) : SharedTask Unit := do
  shared (.push event)
  shared (.announce event)

/-- `read_loop`, for the events it reads. -/
def readTask : List ClientEvent → SharedTask (Option ClientEvent)
  | [] => pure none
  | event :: rest => do
      record event
      let sent ← shared (.forward event)
      if sent = true then readTask rest else return none

/-- Scan the log, or go on. -/
def scan (pred : ClientEvent → Bool) (next : SharedTask (Option ClientEvent)) :
    SharedTask (Option ClientEvent) := do
  let events ← shared .events
  match events.find? pred with
  | some found => return some found
  | none => next

/-- The loop of `wait_for`. -/
def waitLoop (pred : ClientEvent → Bool) : Nat → SharedTask (Option ClientEvent)
  | 0 => Prog.fail .parked
  | n + 1 => do
      let woken ← shared .recv
      match woken with
      | .elapsed => Prog.fail .timeout
      | .received (.event event) => if pred event = true then return some event else waitLoop pred n
      | .received (.lagged _) => scan pred (waitLoop pred n)
      | .closed => Prog.fail .timeout

/-- `FakeServer::wait_for`. -/
def waitFor (pred : ClientEvent → Bool) (n : Nat) : SharedTask (Option ClientEvent) := do
  shared .subscribe
  scan pred (waitLoop pred n)

/-! ## Side by side -/

/-- `Shared`. -/
structure Shared where
  events : List ClientEvent
  announced : List ClientEvent

/-- The receiver of a task. -/
abbrev Receiver := Option Nat

/-- `broadcast::channel(256)`. -/
def announceCapacity : Nat := 256

/-- One operation of one task. -/
def sharedDoes : Does SharedSig Shared Receiver Bool
  | .push event, _, s, rx => some ((), { s with events := s.events ++ [event] }, rx)
  | .events, _, s, rx => some (s.events, s, rx)
  | .announce event, _, s, rx => some ((), { s with announced := s.announced ++ [event] }, rx)
  | .subscribe, _, s, _ => some ((), s, some s.announced.length)
  | .recv, late, s, rx => do
      let next ← rx
      match Broadcast.recv announceCapacity s.announced next with
      | some (got, next') => some (.received got, s, some next')
      | none => if late = true then some (.elapsed, s, some next) else none
  | .forward _, open', s, rx => some (open', s, rx)

/-- A fake server at work: the waits of a test, and a read loop for each
connection. -/
def fake (n : Nat) (waits : List (ClientEvent → Bool)) (loops : List (List ClientEvent)) :
    Tasks SharedSig Missed (Option ClientEvent) Shared Receiver where
  shared := { events := [], announced := [] }
  tasks := waits.map (fun pred => (waitFor pred n, none)) ++ loops.map (fun events => (readTask events, none))

/-- What an operation logs. -/
def SharedOp.logs : SharedOp → List ClientEvent
  | .push event => [event]
  | _ => []

/-- What it announces. -/
def SharedOp.announces : SharedOp → List ClientEvent
  | .announce event => [event]
  | _ => []

/-- What has been announced in a run. -/
def announcedIn (t : List (Tasks.Entry SharedSig)) : List ClientEvent :=
  t.flatMap (fun e => e.op.announces)

/-! ## Where a task stands -/

/-- Where a task stands. -/
inductive Post where
  | reading
  | pushed (event : ClientEvent)
  | announced (event : ClientEvent)
  | fresh (pred : ClientEvent → Bool)
  | subscribed (pred : ClientEvent → Bool)
  | waiting (pred : ClientEvent → Bool)
  | lagged (pred : ClientEvent → Bool)
  | ended (pred : ClientEvent → Bool) (event : Option ClientEvent)

namespace Post

def may : Post → SharedOp → Prop
  | reading, o => ∃ event, o = .push event
  | pushed event, o => o = .announce event
  | announced event, o => o = .forward event
  | fresh _, o => o = .subscribe
  | subscribed _, o => o = .events
  | waiting _, o => o = .recv
  | lagged _, o => o = .events
  | ended _ _, _ => False

/-- A scan finds an event, or the test waits. -/
def scanned (pred : ClientEvent → Bool) (events : List ClientEvent) : Post :=
  match events.find? pred with
  | some event => ended pred (some event)
  | none => waiting pred

/-- What a test that waits was woken by. -/
def woken (pred : ClientEvent → Bool) : Woken → Post
  | .received (.event event) => if pred event = true then ended pred (some event) else waiting pred
  | .received (.lagged _) => lagged pred
  | _ => ended pred none

def next : Post → (o : SharedOp) → o.Resp → Post
  | reading, .push event, _ => pushed event
  | pushed event, .announce _, _ => announced event
  | announced _, .forward _, _ => reading
  | fresh pred, .subscribe, _ => subscribed pred
  | subscribed pred, .events, events => scanned pred events
  | lagged pred, .events, events => scanned pred events
  | waiting pred, .recv, woke => woken pred woke
  | post, _, _ => post

/-- What a task returns in the end. -/
def Returns (found : Option ClientEvent) : Post → Prop
  | reading => found = none
  | ended _ event => found = event ∧ event.isSome = true
  | _ => False

/-- A task that fails was waiting. -/
def Fails : Post → Prop
  | waiting _ => True
  | ended _ none => True
  | _ => False

/-- The test's condition. -/
def pred? : Post → Option (ClientEvent → Bool)
  | fresh pred | subscribed pred | waiting pred | lagged pred | ended pred _ => some pred
  | _ => none

end Post

/-- Where tasks stand, as a discipline. -/
def posts : Discipline SharedSig Missed Post where
  may := Post.may
  answers := fun _ _ _ => True
  next := Post.next
  fails := fun post _ => post.Fails

end Bolide.Testkit
