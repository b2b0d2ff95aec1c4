/-
Bolide.Cli.Daemon — the daemon beside its session (`serve_foreground` and
`wait_for_the_end` in `bolide-cli/src/run.rs`).

The daemon's tasks look at the session, and what they send it, like the
requests of the server they start, is among the session's own calls. What
the daemon prints is left out, and so is what comes before `connect`
returns.

Translation notes. `tokio::select!` takes any branch that is ready;
`record`'s is biased and takes the first. The events' channel is closed only
when the session is dropped, and a task that waits holds it. A `Recording`
that is dropped stops the recording as `finish` does.
-/
import Bolide.Cli.Record
import Bolide.Rfb.Writer
import Bolide.Lib.Beside

namespace Bolide.Cli

open Lib Bolide.Rfb

/-! ## `wait_for_the_end` -/

/-- Whether the wait is over. -/
def EndEvent.ends : EndEvent → Bool
  | .interrupted => true
  | .terminated => true
  | .received (.event (.disconnected _)) => true
  | .received _ => false
  | .closed => true

/-- The loop of `wait_for_the_end`. -/
def waitLoop : Nat → DaemonTask Unit
  | 0 => Prog.fail .parked
  | n + 1 => do
      let woken ← daemon .wakeEnd
      if woken.ends = true then pure () else waitLoop n

/-- `wait_for_the_end`. -/
def waitForTheEnd (n : Nat) : DaemonTask Unit := do
  daemon .subscribe
  waitLoop n

/-! ## `serve_foreground` -/

/-- What `serve_foreground` uses of `ConnectArgs`. -/
structure ConnectArgs where
  listen : String
  record : Option String
  deriving DecidableEq, Repr

/-- Go on after an operation that worked, or clean up and fail. -/
def orFailure (outcome : Except String Unit) (what : String) (cleanup : DaemonTask Unit) :
    DaemonTask Unit :=
  match outcome with
  | .ok () => pure ()
  | .error e => do
      cleanup
      Prog.fail (.cli (.failure s!"{what}: {e}"))

/-- `Recording::start`, if there is a recording. -/
def startRecording (args : ConnectArgs) : DaemonTask Unit :=
  match args.record with
  | none => pure ()
  | some path => do
      let size ← daemon .size
      let canvas := Geometry.forScreen size.1 size.2
      let started ← daemon (.spawnEncoder canvas)
      orFailure started s!"cannot record to {path}" (pure ())
      daemon (.spawnRecord canvas)

/-- Drop the `Recording`, if there is one. -/
def dropRecording (args : ConnectArgs) : DaemonTask Unit :=
  match args.record with
  | none => pure ()
  | some _ => daemon .stop

/-- `Recording::finish`, if there is a recording. -/
def finishRecording (args : ConnectArgs) : DaemonTask Unit :=
  match args.record with
  | none => pure ()
  | some _ => do
      daemon .stop
      let _ ← daemon .join
      return ()

/-- `serve_foreground`, from where `connect` has returned. -/
def serveForeground (n : Nat) (args : ConnectArgs) : DaemonTask Unit := do
  startRecording args
  let bound ← daemon .bind
  orFailure bound s!"cannot listen on {args.listen}" (dropRecording args)
  let saved ← daemon .save
  orFailure saved "cannot write the state file" (dropRecording args)
  waitForTheEnd n
  finishRecording args
  daemon .shutdown
  daemon .close
  daemon .clear

/-! ## Beside the session -/

/-- What the daemon's tasks share. -/
structure Daemon where
  canvas : Option Geometry
  stopped : Bool
  recorded : Option (Except String Nat)

/-- What the scheduler decides: that an operation fails, that a signal has
come, or that the ticker has ticked. -/
inductive Fate where
  | plain
  | failed (e : String)
  | interrupt
  | terminate
  | tick (more : Bool)

/-- How an operation that may fail ends. -/
def Fate.outcome : Fate → Except String Unit
  | .failed e => .error e
  | _ => .ok ()

/-- Take what a receiver holds, if it holds anything. -/
def receive (i : Inner) (own : Own) : Option (Broadcast.Received ServerEvent × Own) := do
  let next ← own.next
  let got ← Broadcast.recv eventCapacity i.events next
  return (got.1, { own with next := some got.2 })

/-- One operation of one task of the daemon, beside a session. -/
def daemonDoes (i : Inner) : Does DaemonSig Daemon Own Fate
  | .subscribe, _, d, own => some ((), d, { own with next := some i.events.length })
  | .size, _, d, own => some ((i.state.fb.width, i.state.fb.height), d, own)
  | .framebuffer, _, d, own => some (.ok i.state.fb, d, own)
  | .close, _, d, own => some ((), d, own)
  | .wakeRecord, m, d, own =>
      if d.stopped = true then some (.stopped, d, own)
      else match receive i own with
        | some (got, own) => some (.received got, d, own)
        | none => match m with
          | .tick more => some (.ticked more, d, own)
          | _ => none
  | .wakeEnd, m, d, own =>
      match m with
      | .interrupt => some (.interrupted, d, own)
      | .terminate => some (.terminated, d, own)
      | _ => (receive i own).map (fun got => (.received got.1, d, got.2))
  | .spawnEncoder _, m, d, own => some (m.outcome, d, own)
  | .writeFrame _, m, d, own => some (m.outcome, d, own)
  | .finishSink, m, d, own => some (m.outcome, d, own)
  | .spawnRecord canvas, _, d, own => some ((), { d with canvas := some canvas }, own)
  | .spawned, _, d, own => d.canvas.map (fun canvas => (canvas, d, own))
  | .leave result, _, d, own => some ((), { d with recorded := some result }, own)
  | .stop, _, d, own => some ((), { d with stopped := true }, own)
  | .join, _, d, own => d.recorded.map (fun result => (result, d, own))
  | .bind, m, d, own => some (m.outcome, d, own)
  | .save, m, d, own => some (m.outcome, d, own)
  | .shutdown, _, d, own => some ((), d, own)
  | .clear, _, d, own => some ((), d, own)

/-- A daemon and its session. -/
abbrev Served := Beside SessionSig Stop Returned Inner Own DaemonSig Halt Unit Daemon Own

/-- The daemon of a session that has just been opened. -/
def served (base : Tasks SessionSig Stop Returned Inner Own) (n : Nat) (args : ConnectArgs) :
    Served where
  base := base
  front := {
    shared := { canvas := none, stopped := false, recorded := none }
    tasks := [(serveForeground n args, .new), (recordTask n, .new)] }

end Bolide.Cli
