/-
Bolide.Cli.State — the state file, and the processes that use it
(`bolide-cli/src/state.rs`, `run.rs` and `daemon.rs`).

`StateOp` lists what a `bolide` process does to `session.json` and to other
processes, one system call at a time, beside what may fail or take its time;
`stateDoes` says what each does. `Job` is what a process was started for. A
crash, or a `SIGKILL`, is something done to a process from outside: a job of
its own.

Translation notes. What the file holds is what `serde_json` makes of it.
`save_in` writes a file of its own and renames it, which is one operation; a
file that is there can be read. The kernel gives no process a pid that
another process has, and none gets 0. What `SIGTERM` does is left to the
scheduler: the daemon's wait may end at any time. Whether `connect` records
is one of the things that `requireFfmpeg` leaves open. A child that is spawned is
one of the processes. What is printed is left out, and so are the requests
that follow a `load`.
-/
import Bolide.Cli.Record
import Bolide.Lib.Tasks

namespace Bolide.Cli

open Lib

/-! ## The file -/

/-- What `connect` writes so the other subcommands can find the daemon. -/
structure SessionState where
  endpoint : String
  pid : UInt32
  remote : String
  username : Option String
  token : Option String
  startedAt : String
  deriving DecidableEq, Repr

/-- What the state file holds. -/
inductive Contents where
  | unparsable
  | session (state : SessionState)
  deriving DecidableEq, Repr

/-- Whether the child is still running. -/
inductive ChildStatus where
  | running
  | exited (code : Int32)
  deriving DecidableEq, Repr

/-- How `remove_file` ends. -/
inductive Removal where
  | removed
  | notFound
  | failed (e : String)
  deriving DecidableEq, Repr

/-- How `kill` ends. -/
inductive Killed where
  | sent
  | noSuchProcess
  | failed (e : String)
  deriving DecidableEq, Repr

/-! ## Operations -/

/-- One step of a process. -/
inductive StateOp where
  -- the process
  | start
  | exit
  | nap
  -- the state file
  | read
  | remove
  | save (state : SessionState)
  -- other processes
  | alive (pid : UInt32)
  | terminate (pid : UInt32)
  | spawn
  | poll
  | crash (victim : Nat)
  -- `connect`, before and after the state file is there
  | requireFfmpeg
  | open
  | waitForTheEnd
  | finish

/-- The type of an operation's answer. -/
abbrev StateOp.Resp : StateOp → Type
  | .read => Option Contents
  | .remove => Removal
  | .save _ => Except String Unit
  | .alive _ => Bool
  | .terminate _ => Killed
  | .spawn => Except String UInt32
  | .poll => Except String ChildStatus
  | .requireFfmpeg => Except CliError Unit
  | .open => Except CliError Unit
  | _ => Unit

abbrev StateSig : Sig where
  Op := StateOp
  Resp := StateOp.Resp

/-- What a process does. -/
abbrev StateTask (α : Type) := Prog StateSig CliError α

/-- The task that performs one operation. -/
def state (o : StateOp) : StateTask o.Resp := .step o .ret

/-! ## `state.rs` -/

/-- `load_in`: the state file, if there is a live one. -/
def loadIn : StateTask (Option SessionState) := do
  let raw ← state .read
  match raw with
  | none => return none
  | some .unparsable => do
      let _ ← state .remove
      return none
  | some (.session found) => do
      let alive ← state (.alive found.pid)
      if alive = false then do
        let _ ← state .remove
        return none
      else return some found

/-- `clear_in`. -/
def clearIn : StateTask (Except String Unit) := do
  let removal ← state .remove
  match removal with
  | .failed e => return .error e
  | _ => return .ok ()

/-! ## `disconnect` -/

/-- There is no bolide server to talk to — exit 3. -/
def CliError.notConnected (message : String) : CliError := ⟨3, message, .err⟩

/-- `require_session`. -/
def requireSession : Option SessionState → StateTask SessionState
  | some found => pure found
  | none => Prog.fail (.notConnected
      "not connected: run `bolide connect vnc://HOST` first (`bolide status` once it is up)")

/-- The wait of `disconnect` for the daemon to go, for as many as `n` looks. -/
def awaitDeath (pid : UInt32) : Nat → StateTask Unit
  | 0 => pure ()
  | n + 1 => do
      let alive ← state (.alive pid)
      if alive = false then pure ()
      else do
        state .nap
        awaitDeath pid n

def disconnect : StateTask Unit := do
  let loaded ← loadIn
  let found ← requireSession loaded
  let killed ← state (.terminate found.pid)
  match killed with
  | .failed e =>
      Prog.fail (.failure s!"could not stop the bolide daemon (pid {found.pid}): {e}")
  | _ => do
      awaitDeath found.pid 200
      let cleared ← clearIn
      match cleared with
      | .error e => Prog.fail (.failure s!"could not clear the state file: {e}")
      | .ok () => pure ()

/-! ## `connect` -/

/-- `serve_foreground`: `opened` is everything up to the server's address. -/
def serveForegroundAt (own : SessionState) : StateTask Unit := do
  let opened ← state .open
  match opened with
  | .error e => Prog.fail e
  | .ok () => do
      let saved ← state (.save own)
      match saved with
      | .error e => Prog.fail (.failure s!"cannot write the state file: {e}")
      | .ok () => do
          state .waitForTheEnd
          state .finish
          let _ ← clearIn
          pure ()

/-- `ours`: the state file, if it is the child's. -/
def ours (childPid : UInt32) : StateTask (Option SessionState) := do
  let loaded ← loadIn
  return loaded.filter (fun found => found.pid = childPid)

/-- `await_startup`, for as many as `attempts` looks. -/
def awaitStartup (childPid : UInt32) : Nat → StateTask SessionState
  | 0 => Prog.fail (.failure "timed out waiting for the bolide server to start")
  | n + 1 => do
      let mine ← ours childPid
      match mine with
      | some found => return found
      | none => do
          let status ← state .poll
          match status with
          | .error e => Prog.fail (.failure s!"lost track of the bolide daemon: {e}")
          | .ok (.exited code) => do
              let mine ← ours childPid
              match mine with
              | some found => return found
              | none => Prog.fail (.failure s!"bolide connect failed (the daemon exited {code})")
          | .ok .running => do
              state .nap
              awaitStartup childPid n

/-- `spawn_and_wait`. -/
def spawnAndWait : StateTask Unit := do
  let spawned ← state .spawn
  match spawned with
  | .error e => Prog.fail (.failure s!"could not start the bolide daemon: {e}")
  | .ok childPid => do
      let _ ← awaitStartup childPid 600
      pure ()

/-- `connect`, by a process that would serve as `own`. -/
def connect (own : SessionState) (foreground : Bool) : StateTask Unit := do
  let existing ← loadIn
  match existing with
  | some found =>
      Prog.fail (.failure
        s!"already connected to {found.remote} (pid {found.pid}); run `bolide disconnect` first")
  | none => do
      let encoder ← state .requireFfmpeg
      match encoder with
      | .error e => Prog.fail e
      | .ok () => if foreground = true then serveForegroundAt own else spawnAndWait

/-- Any other subcommand, up to its requests. -/
def command : StateTask Unit := do
  let loaded ← loadIn
  let _ ← requireSession loaded
  pure ()

/-! ## Processes -/

/-- What a process was started for. -/
inductive Job where
  | command
  | disconnect
  | connect (own : SessionState) (foreground : Bool)
  | crash (victim : Nat)
  deriving DecidableEq, Repr

/-- A process: its job, and its pid. -/
structure Process where
  job : Job
  pid : UInt32
  deriving DecidableEq, Repr

/-- A whole process, from its start to its exit. -/
def lifetime (body : StateTask Unit) : StateTask Unit := do
  state .start
  let _ ← body.attempt
  state .exit

/-- What a process does; the state it would serve has its own pid. -/
def Process.task (process : Process) : StateTask Unit :=
  match process.job with
  | .command => lifetime Cli.command
  | .disconnect => lifetime Cli.disconnect
  | .connect own foreground => lifetime (Cli.connect { own with pid := process.pid } foreground)
  | .crash victim => state (.crash victim)

/-- What the processes share: the state file, and which of them are running. -/
structure Host where
  file : Option Contents
  live : List (Nat × Process)

/-- What the scheduler decides: whether a removal fails, whether another
program has a pid, and how everything that may fail ends. -/
structure Luck where
  removal : Option String
  taken : Bool
  saved : Except String Unit
  killed : Killed
  spawned : Except String UInt32
  polled : Except String ChildStatus
  ready : Except CliError Unit

/-- Whether a process with this pid exists. -/
def Host.alive (host : Host) (pid : UInt32) (taken : Bool) : Bool :=
  if pid = 0 then false else host.live.any (fun p => p.2.pid = pid) || taken

/-- One operation of a process that is running. -/
def runningDoes (who : Nat × Process) (luck : Luck) (host : Host) : (o : StateOp) → o.Resp × Host
  | .start => ((), host)
  | .exit => ((), { host with live := host.live.filter (fun p => p.1 ≠ who.1) })
  | .nap => ((), host)
  | .read => (host.file, host)
  | .remove =>
      match host.file, luck.removal with
      | none, _ => (.notFound, host)
      | some _, some e => (.failed e, host)
      | some _, none => (.removed, { host with file := none })
  | .save own =>
      match luck.saved with
      | .error e => (.error e, host)
      | .ok () => (.ok (), { host with file := some (.session own) })
  | .alive pid => (host.alive pid luck.taken, host)
  | .terminate _ => (luck.killed, host)
  | .spawn => (luck.spawned, host)
  | .poll => (luck.polled, host)
  | .crash _ => ((), host)
  | .requireFfmpeg => (luck.ready, host)
  | .open => (luck.ready, host)
  | .waitForTheEnd => ((), host)
  | .finish => ((), host)

/-- One operation of one process: a process starts with a pid of its own, and
does nothing after its end. -/
def stateDoes : Does StateSig Host (Nat × Process) Luck
  | .start, _, host, who =>
      if who.2.pid ≠ 0 ∧ ∀ p ∈ host.live, p.2.pid ≠ who.2.pid then
        some ((), { host with live := who :: host.live }, who)
      else none
  | .crash victim, _, host, who =>
      if host.live.any (fun p => p.1 = victim) then
        some ((), { host with live := host.live.filter (fun p => p.1 ≠ victim) }, who)
      else none
  | o, luck, host, who =>
      if who ∈ host.live then
        let (answer, host) := runningDoes who luck host o
        some (answer, host, who)
      else none

/-- A host with a state file, or none, and the processes that will run on it. -/
def hosted (first : Option Contents) (processes : List Process) :
    Tasks StateSig CliError Unit Host (Nat × Process) where
  shared := { file := first, live := [] }
  tasks := processes.zipIdx.map (fun p => (p.1.task, p.2, p.1))

end Bolide.Cli
