/-
Bolide.Cli.Record — the desktop as a video (`bolide-cli/src/record.rs`), and
the operations of the daemon's two tasks.

`serve_foreground` and `record` run on tasks of their own. `DaemonOp` lists
what they do beside private computation: to the session, to the encoder, to
each other, to the server and to the state file.

Translation notes. Every slice, copy and subtraction of `fit` is checked and
panics out of range: it returns `none` then. `Container::for_path` and the
start of `ffmpeg` are one operation that may fail, and so is each write. A
loop is run for as many as `n` rounds.
-/
import Bolide.Rfb.Session

namespace Bolide.Cli

open Lib Bolide.Rfb

/-! ## The canvas -/

/-- The video's frame size. -/
structure Geometry where
  width : UInt16
  height : UInt16
  deriving DecidableEq, Repr

/-- One side, rounded up to even. -/
def even (side : UInt16) : UInt16 :=
  if side = 0 ∨ side = 1 then 2
  else if side = 65535 then 65534
  else side + side % 2

/-- `Geometry::for_screen`. -/
def Geometry.forScreen (width height : UInt16) : Geometry where
  width := even width
  height := even height

/-- `usize` subtraction, which panics below zero. -/
def sub? (a b : Nat) : Option Nat := if b ≤ a then some (a - b) else none

/-- The size a frame of `fw` by `fh` is drawn at. -/
def scaled (cw ch fw fh : Nat) : Nat × Nat :=
  if fw ≤ cw ∧ fh ≤ ch then (fw, fh)
  else if fw * ch ≥ fh * cw then (cw, max (fh * cw / fw) 1)
  else (max (fw * ch / fh) 1, ch)

/-- The rows of `fit`, drawn at `ox`, `oy`. -/
def fitRows (rgba : List UInt8) (cw fw fh sw sh ox oy : Nat) (out : List UInt8) :
    Option (List UInt8) :=
  (List.range sh).foldlM (fun out dy =>
    let sy := dy * fh / sh
    let row := (oy + dy) * cw
    if sw = fw then do
      let src := sy * fw * 4
      let dst := (row + ox) * 4
      let line ← slice? rgba src (src + fw * 4)
      splice? out dst (dst + sw * 4) line
    else
      (List.range sw).foldlM (fun out dx => do
        let src := (sy * fw + dx * fw / sw) * 4
        let dst := (row + ox + dx) * 4
        let px ← slice? rgba src (src + 4)
        splice? out dst (dst + 4) px) out) out

/-- `fit`: a frame as RGBA at exactly the canvas's size. -/
def fit (frame : Framebuffer) (canvas : Geometry) : Option (List UInt8) :=
  let (cw, ch) := (canvas.width.toNat, canvas.height.toNat)
  let (fw, fh) := (frame.width.toNat, frame.height.toNat)
  if (fw, fh) = (cw, ch) then some frame.rgba
  else
    let out := (List.replicate (cw * ch) [0, 0, 0, 255]).flatten
    if fw = 0 ∨ fh = 0 then some out
    else do
      let (sw, sh) := scaled cw ch fw fh
      let ox ← sub? cw sw
      let oy ← sub? ch sh
      fitRows frame.rgba cw fw fh sw sh (ox / 2) (oy / 2) out

/-! ## How a command stops -/

/-- Which stream a message belongs on. -/
inductive Stream where
  | out
  | err
  deriving DecidableEq, Repr

/-- The reason a command stopped early. -/
structure CliError where
  code : UInt8
  message : String
  stream : Stream
  deriving DecidableEq, Repr

/-- A general failure — exit 1. -/
def CliError.failure (message : String) : CliError := ⟨1, message, .err⟩

/-- Why a task of the daemon did not return. -/
inductive Halt where
  | cli (e : CliError)
  | panic
  | parked
  deriving DecidableEq, Repr

/-! ## Operations -/

/-- What wakes `record`. -/
inductive Woken where
  | stopped
  | received (got : Broadcast.Received ServerEvent)
  | closed
  | ticked (more : Bool)
  deriving DecidableEq, Repr

/-- What wakes `wait_for_the_end`. -/
inductive EndEvent where
  | interrupted
  | terminated
  | received (got : Broadcast.Received ServerEvent)
  | closed
  deriving DecidableEq, Repr

/-- One atomic step of a task of the daemon. -/
inductive DaemonOp where
  -- the session
  | subscribe
  | size
  | framebuffer
  | close
  -- the two `select!`s
  | wakeRecord
  | wakeEnd
  -- the encoder
  | spawnEncoder (canvas : Geometry)
  | writeFrame (rgba : List UInt8)
  | finishSink
  -- the recording's task, its stop and its result
  | spawnRecord (canvas : Geometry)
  | spawned
  | leave (result : Except String Nat)
  | stop
  | join
  -- the server and the state file
  | bind
  | save
  | shutdown
  | clear

abbrev DaemonOp.Resp : DaemonOp → Type
  | .size => UInt16 × UInt16
  | .framebuffer => Except String Framebuffer
  | .wakeRecord => Woken
  | .wakeEnd => EndEvent
  | .spawnEncoder _ => Except String Unit
  | .writeFrame _ => Except String Unit
  | .finishSink => Except String Unit
  | .spawned => Geometry
  | .join => Except String Nat
  | .bind => Except String Unit
  | .save => Except String Unit
  | _ => Unit

abbrev DaemonSig : Sig where
  Op := DaemonOp
  Resp := DaemonOp.Resp

/-- A task of the daemon. -/
abbrev DaemonTask (α : Type) := Prog DaemonSig Halt α

def daemon (o : DaemonOp) : DaemonTask o.Resp := .step o .ret

/-! ## `record` -/

/-- What `record` does next. -/
inductive Take where
  | frame
  | leave
  | again
  deriving DecidableEq, Repr

/-- The arms of the `select!`. -/
def Woken.take : Woken → Take
  | .stopped => .leave
  | .received (.event (.disconnected _)) => .leave
  | .received _ => .again
  | .closed => .leave
  | .ticked more => if more = true then .frame else .leave

/-- `write_one`. -/
def writeOne (canvas : Geometry) : DaemonTask (Except String Unit) := do
  let frame ← daemon .framebuffer
  match frame with
  | .error e => pure (.error e)
  | .ok frame =>
      match fit frame canvas with
      | none => Prog.fail .panic
      | some rgba => daemon (.writeFrame rgba)

/-- The loop of `record`: how many frames were written, and the failure of
the one that was not. -/
def recordLoop (canvas : Geometry) : Nat → Nat → DaemonTask (Nat × Option String)
  | 0, _ => Prog.fail .parked
  | n + 1, frames => do
      let woken ← daemon .wakeRecord
      match woken.take with
      | .again => recordLoop canvas n frames
      | .leave => pure (frames, none)
      | .frame => do
          let written ← writeOne canvas
          match written with
          | .error e => pure (frames, some e)
          | .ok () => recordLoop canvas n (frames + 1)

/-- A recording always has at least one frame. -/
def atLeastOne (canvas : Geometry) : Nat × Option String → DaemonTask (Nat × Option String)
  | (0, none) => do
      let written ← writeOne canvas
      match written with
      | .ok () => pure (1, none)
      | .error e => pure (0, some e)
  | ended => pure ended

/-- `record`. -/
def record (n : Nat) (canvas : Geometry) : DaemonTask (Except String Nat) := do
  daemon .subscribe
  let ended ← recordLoop canvas n 0
  let (frames, failed) ← atLeastOne canvas ended
  let finished ← daemon .finishSink
  match failed with
  | some e => pure (.error e)
  | none => pure (finished.map (fun _ => frames))

/-- The task `Recording::start` spawns. -/
def recordTask (n : Nat) : DaemonTask Unit := do
  let canvas ← daemon .spawned
  let result ← record n canvas
  daemon (.leave result)

end Bolide.Cli
