/-
Bolide.Rfb.Writer — the writer task, and a whole session side by side
(`writer_task` and `connect_stream` in `bolide-rfb/src/client.rs`).

The writer takes one command at a time off the queue, builds a request when
it is about to be written, and writes all of it before the next. `session`
is what `connect_stream` leaves running: the reader, the writer, the first
request of continuous mode, and any number of callers of its handles.

Translation notes. `write_all` offers what is left until it is taken; a
connection that takes nothing is an error. `w.shutdown()` touches nothing
the tasks share and is left out. `connect_stream` spawns both tasks before
it sends the first request, so that send runs beside them.
-/
import Bolide.Rfb.Handle

namespace Bolide.Rfb

open Lib

/-! ## The writer -/

/-- `AsyncWriteExt::write_all`. -/
def writeAll (bytes : List UInt8) : Task Unit :=
  match bytes with
  | [] => pure ()
  | b :: rest => do
      let got ← op (.pollWrite (b :: rest))
      let taken ← Prog.ofExcept got
      match taken with
      | 0 => Prog.fail (.err (.io "write zero"))
      | n + 1 => writeAll (rest.drop n)
termination_by bytes.length
decreasing_by
  simp only [List.length_drop, List.length_cons]
  omega

/-- `Inner::build_request`: the size is the one in force now. -/
def buildRequest (incremental : Bool) : Task (List UInt8) := do
  let first ← op .swapNeedsFull
  let size ← op .size
  return framebufferUpdateRequest (incremental && !first) 0 0 size.1 size.2

/-- The bytes of a command. -/
def commandBytes : Command → Task (List UInt8)
  | .write bytes => pure bytes
  | .request incremental => buildRequest incremental

/-- Write one command. -/
def writeCommand (command : Command) : Task Unit := do
  let bytes ← commandBytes command
  writeAll bytes

/-- `writer_task`, for as many as `n` commands. -/
def writerTask : Nat → Task Unit
  | 0 => pure ()
  | n + 1 => do
      let got ← op .pop
      match got with
      | none => op .closeCommands
      | some command => do
          let outcome ← (writeCommand command).attempt
          match outcome with
          | .ok () => writerTask n
          | .error (.err e) => do
              markDead (some e)
              op .closeCommands
          | .error stop => Prog.fail stop

/-- What `connect_stream` asks for before it returns. -/
def firstRequest (continuous : Bool) : Task Unit :=
  if continuous = true then sendOrFail (.request true) else pure ()

/-! ## A session -/

/-- What a handle is asked to do. -/
inductive Call where
  | refresh (n : Nat) (incremental : Bool) (timeout : Duration)
  | pointer (x y : UInt16) (buttons : UInt8)
  | key (keysym : UInt32) (down : Bool)
  | keyBurst (events : List (UInt32 × Bool))
  | cutText (text : String)
  | close

/-- What a task of a session returns: a refresh returns its frame. -/
abbrev Returned := Option Framebuffer

/-- A task that returns nothing of interest. -/
def quietly (p : Task Unit) : Task Returned := do
  p
  return none

/-- The task of one call. -/
def Call.task : Call → Task Returned
  | .refresh n incremental timeout => do
      let frame ← Bolide.Rfb.refresh n incremental timeout
      return some frame
  | .pointer x y buttons => quietly (Bolide.Rfb.pointer x y buttons)
  | .key keysym down => quietly (Bolide.Rfb.key keysym down)
  | .keyBurst events => quietly (Bolide.Rfb.keyBurst events)
  | .cutText text => quietly (Bolide.Rfb.cutText text)
  | .close => quietly Bolide.Rfb.close

/-- The tasks of a session: the reader, the writer, the opener, and every
call of a handle. -/
def sessionTasks {z : Decompress} (continuous : Bool) (n m : Nat) (d : Decoders z)
    (calls : List Call) : List (Task Returned) :=
  quietly (readerTask continuous n d) :: quietly (writerTask m) ::
    quietly (firstRequest continuous) :: calls.map Call.task

/-- A session that has just shaken hands. -/
def session {z : Decompress} (width height : UInt16) (name : String) (continuous : Bool)
    (n m : Nat) (d : Decoders z) (calls : List Call) :
    Tasks SessionSig Stop Returned Inner Own where
  shared := .new width height name
  tasks := (sessionTasks continuous n m d calls).map (fun p => (p, .new))

end Bolide.Rfb
