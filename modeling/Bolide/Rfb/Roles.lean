/-
Bolide.Rfb.Roles — what the tasks of a session do, as each other see it.

A task of the session is a long program, and most of it (the decoders, the
lengths, the texts of errors) is of no interest to the other tasks. A role
is what is left: the order in which the task touches the shared state, and
the few values that decide what it touches next. Every role is a
`Lib.Prog.Discipline`, and every task of `session` follows its own:
`readerTask_follows`, `writerTask_follows`, `refresh_follows` and the rest.

An invariant of sessions is then an invariant of roles. What it needs of the
source is in the transition functions of this module, which say which
operation each role allows and where its answer leads.
-/
import Bolide.Rfb.Writer
import Bolide.Rfb.HandleTheorems

namespace Bolide.Rfb

open Lib Prog

/-- What the connection answers, whoever asks. -/
def Answered : (o : Op) → o.Resp → Prop
  | .fill n, .ok bytes => bytes.length = n
  | .pollWrite bytes, .ok taken => taken ≤ bytes.length
  | _, _ => True

theorem sessionDoes_answered {o : Op} {m : Choice} {i i' : Inner} {own own' : Own} {r : o.Resp}
    (h : sessionDoes o m i own = some (r, i', own')) : Answered o r := by
  cases o with
  | fill n =>
      simp only [sessionDoes] at h
      split at h
      · split at h
        · next hlen =>
            cases h
            exact hlen
        · cases h
      · cases h
        trivial
  | pollWrite bytes =>
      simp only [sessionDoes] at h
      split at h
      · split at h
        · next htaken =>
            cases h
            exact htaken.length_le
        · cases h
      · cases h
        trivial
  | _ => trivial

/-! ## Sending a command -/

/-- Where a `send` stands. -/
inductive Sending where
  | check
  | count
  | push
  | sent (accepted : Bool)
  deriving DecidableEq

namespace Sending

variable (command : Command)

def may : Sending → Op → Prop
  | check, o => o = .loadConnected
  | count, o => o = .addOutstanding
  | push, o => o = .push command
  | sent _, _ => False

/-- A request is counted before it is pushed. -/
def checked : Command → Sending
  | .request _ => count
  | .write _ => push

def next : Sending → (o : Op) → o.Resp → Sending
  | check, .loadConnected, connected => if connected = true then checked command else sent false
  | count, .addOutstanding, _ => push
  | push, .push _, accepted => sent accepted
  | s, _, _ => s

def discipline : Discipline SessionSig Stop Sending where
  may := may command
  answers _ := Answered
  next := next command
  fails _ _ := False

/-- What `send` returns when it is done. -/
def result (accepted : Bool) : Except Error Unit := if accepted = true then .ok () else .error .closed

theorem send_follows : Follows (discipline command) check (send command)
    (fun returned s => ∃ accepted, s = sent accepted ∧ returned = result accepted) := by
  refine follows_perform rfl (fun connected _ => ?_)
  cases connected with
  | false => exact ⟨false, rfl, rfl⟩
  | true =>
      have hcount : Follows (discipline command) (checked command) (countRequest command)
          (fun _ s => s = push) := by
        cases command with
        | write bytes => rfl
        | request incremental => exact ⟨rfl, fun _ _ => rfl⟩
      refine follows_bind hcount (fun _ s hs => ?_)
      subst hs
      refine follows_perform rfl (fun accepted _ => ?_)
      cases accepted with
      | false => exact ⟨false, rfl, rfl⟩
      | true => exact ⟨true, rfl, rfl⟩

end Sending

/-! ## Announcing death -/

/-- Where a `mark_dead` stands. -/
inductive Dying where
  | swap
  | announce
  | signal
  | done
  deriving DecidableEq

namespace Dying

def may : Dying → Op → Prop
  | swap, o => o = .swapConnected
  | announce, o => ∃ reason, o = .emit (.disconnected reason)
  | signal, o => o = .signalShutdown
  | done, _ => False

/-- Only who finds the session connected announces. -/
def swapped (was : Bool) : Dying := if was = true then announce else done

def next : Dying → (o : Op) → o.Resp → Dying
  | swap, .swapConnected, was => swapped was
  | announce, .emit _, _ => signal
  | signal, .signalShutdown, _ => done
  | d, _, _ => d

def discipline : Discipline SessionSig Stop Dying where
  may := may
  answers _ := Answered
  next := next
  fails _ _ := False

theorem markDead_follows (reason : Option Error) :
    Follows discipline swap (markDead reason) (fun _ d => d = done) := by
  refine follows_perform rfl (fun was _ => ?_)
  cases was with
  | false => rfl
  | true => exact follows_perform ⟨reason, rfl⟩ (fun _ _ => ⟨rfl, fun _ _ => rfl⟩)

end Dying

/-! ## Reading -/

/-- Where the reader stands. In an update: its number, whether a rect has
been drawn, and whether one resized the screen. -/
inductive Reading where
  | idle
  | listening
  | heard (update : Bool)
  | owed
  | plain
  | begun (update : Nat) (painted resized : Bool)
  | resizing (update : Nat) (painted : Bool)
  | flagged (update : Nat) (painted : Bool)
  | asking (s : Sending) (update : Nat) (painted : Bool)
  | announce (update : Nat)
  | numbered (update generation : Nat)
  | stored (generation : Nat)
  | shown (generation : Nat)
  | failed
  | dying (d : Dying)

namespace Reading

def may : Reading → Op → Prop
  | idle, o => o = .disarm
  | listening, o => o = .fill 1
  | heard _, o => o = .arm
  | owed, o => o = .beginUpdate
  | plain, o => match o with
      | .fill _ | .setCutText _ | .disarm | .swapConnected => True
      | .emit event => event = .bell ∨ ∃ text, event = .cutText text
      | _ => False
  | begun _ _ _, o => match o with
      | .fill _ | .desktopSize _ _ | .swapConnected => True
      | .draw f => KeepsSize f
      | .storeOutstanding n => n = 0
      | _ => False
  | resizing _ _, o => o = .storeNeedsFull true
  | flagged _ _, o => ∃ w h, o = .emit (.resized w h)
  | asking s _ _, o => s.may (.request true) o
  | announce _, o => o = .nextGeneration
  | numbered update _, o => o = .storeLastPainted update
  | stored _, o => o = .setPainted
  | shown generation, o => o = .emit (.painted generation)
  | failed, o => o = .swapConnected
  | dying d, o => d.may o

/-- After the request, if there was one. -/
def asked (update : Nat) (painted : Bool) : Reading := if painted = true then announce update else idle

/-- A send on behalf of an update. -/
def sending (update : Nat) (painted : Bool) : Sending → Reading
  | .sent _ => asked update painted
  | s => asking s update painted

/-- After the last rect. -/
def drained (wanted : Bool) (update : Nat) (painted : Bool) : Reading :=
  if wanted = true then asking .check update painted else asked update painted

def next (continuous : Bool) : Reading → (o : Op) → o.Resp → Reading
  | idle, .disarm, _ => listening
  | listening, .fill _, .ok bytes => heard (bytes = [ServerMsg.framebufferUpdate])
  | listening, .fill _, .error _ => failed
  | heard update, .arm, _ => if update = true then owed else plain
  | owed, .beginUpdate, update => begun update false false
  | plain, .disarm, _ => listening
  | plain, .fill _, .error _ => failed
  | plain, .swapConnected, was => dying (.swapped was)
  | begun _ _ _, .fill _, .error _ => failed
  | begun update _ resized, .draw _, .ok _ => begun update true resized
  | begun _ _ _, .draw _, .error _ => failed
  | begun update painted _, .desktopSize _ _, _ => resizing update painted
  | begun _ _ _, .swapConnected, was => dying (.swapped was)
  | begun update painted resized, .storeOutstanding _, _ =>
      drained (resized || continuous) update painted
  | resizing update painted, .storeNeedsFull _, _ => flagged update painted
  | flagged update painted, .emit _, _ => begun update painted true
  | asking s update painted, o, r => sending update painted (s.next (.request true) o r)
  | announce update, .nextGeneration, generation => numbered update generation
  | numbered _ generation, .storeLastPainted _, _ => stored generation
  | stored generation, .setPainted, _ => shown generation
  | shown _, .emit _, _ => idle
  | failed, .swapConnected, was => dying (.swapped was)
  | dying d, o, r => dying (d.next o r)
  | role, _, _ => role

/-- The roles in which a message can turn out to be wrong. -/
def Fallible : Reading → Prop
  | plain => True
  | begun _ _ _ => True
  | failed => True
  | _ => False

def discipline (continuous : Bool) : Discipline SessionSig Stop Reading where
  may := may
  answers _ := Answered
  next := next continuous
  fails role _ := role.Fallible

/-- The roles the reader's loop ends in. -/
def Rests : Reading → Prop
  | idle => True
  | plain => True
  | dying .done => True
  | _ => False

/-- The roles in which the reader reads what it is owed. -/
def Owed : Reading → Prop
  | plain => True
  | begun _ _ _ => True
  | _ => False

end Reading

/-! ## Writing -/

/-- Where the writer stands. While it writes: the command, its whole message,
and what is left of it. -/
inductive Writing where
  | ready
  | asked (incremental : Bool)
  | sized (incremental first : Bool)
  | writing (command : Command) (message rest : List UInt8)
  | failed
  | dying (d : Dying)
  | closing
  | gone

namespace Writing

def may : Writing → Op → Prop
  | ready, o => o = .pop
  | asked _, o => o = .swapNeedsFull
  | sized _ _, o => o = .size
  | writing _ _ rest, o => o = .pollWrite rest
  | failed, o => o = .swapConnected
  | dying d, o => d.may o
  | closing, o => o = .closeCommands
  | gone, _ => False

/-- What is left of a message that is being written. -/
def left (command : Command) (message rest : List UInt8) : Writing :=
  if rest = [] then ready else writing command message rest

/-- A command that has been taken off the queue. -/
def taken : Command → Writing
  | .write bytes => left (.write bytes) bytes bytes
  | .request incremental => asked incremental

/-- The connection took some of what it was offered. -/
def offered (command : Command) (message rest : List UInt8) : Nat → Writing
  | 0 => failed
  | n + 1 => left command message (rest.drop (n + 1))

/-- Once death is announced the queue is closed. -/
def buried : Dying → Writing
  | .done => closing
  | d => dying d

def next : Writing → (o : Op) → o.Resp → Writing
  | ready, .pop, some command => taken command
  | ready, .pop, none => closing
  | asked incremental, .swapNeedsFull, first => sized incremental first
  | sized incremental first, .size, size =>
      let message := framebufferUpdateRequest (incremental && !first) 0 0 size.1 size.2
      left (.request incremental) message message
  | writing command message rest, .pollWrite _, .ok n => offered command message rest n
  | writing _ _ _, .pollWrite _, .error _ => failed
  | failed, .swapConnected, was => buried (.swapped was)
  | dying d, o, r => buried (d.next o r)
  | closing, .closeCommands, _ => gone
  | role, _, _ => role

/-- The roles the writer's loop ends in. -/
def Rests : Writing → Prop
  | ready => True
  | gone => True
  | _ => False

def discipline : Discipline SessionSig Stop Writing where
  may := may
  answers _ := Answered
  next := next
  fails role _ := role = failed

end Writing

/-! ## Refreshing -/

/-- Where a `refresh` stands, and the floor it compares with. -/
inductive Refreshing where
  | start
  | subscribed
  | asking (s : Sending) (floor : Nat)
  | waiting (floor : Nat)
  | told (floor : Nat)
  | ready (floor : Nat)
  | copied (floor : Nat) (frame : Framebuffer)
  | failed

namespace Refreshing

def may (incremental : Bool) : Refreshing → Op → Prop
  | start, o => o = .subscribe
  | subscribed, o => o = .loadUpdatesBegun
  | asking s _, o => s.may (.request incremental) o
  | waiting _, o => o = .recv
  | told _, o => o = .loadLastPainted
  | ready _, o => o = .framebuffer
  | copied _ _, _ => False
  | failed, _ => False

/-- A request that is refused ends the refresh. -/
def sending (floor : Nat) : Sending → Refreshing
  | .sent accepted => if accepted = true then waiting floor else failed
  | s => asking s floor

/-- What an event does to the wait. -/
def woken (floor : Nat) : Wakeup → Refreshing
  | .received (.event (.painted _)) => told floor
  | .received (.event (.disconnected _)) => failed
  | .received _ => waiting floor
  | .elapsed => failed
  | .closed => failed

/-- Only an update past the floor ends the wait. -/
def judged (floor last : Nat) : Refreshing := if floor < last then ready floor else waiting floor

def next (incremental : Bool) : Refreshing → (o : Op) → o.Resp → Refreshing
  | start, .subscribe, _ => subscribed
  | subscribed, .loadUpdatesBegun, floor => asking .check floor
  | asking s floor, o, r => sending floor (s.next (.request incremental) o r)
  | waiting floor, .recv, wakeup => woken floor wakeup
  | told floor, .loadLastPainted, last => judged floor last
  | ready floor, .framebuffer, frame => copied floor frame
  | role, _, _ => role

/-- A wait may go on past the rounds it is run for. -/
def Fallible : Refreshing → Stop → Prop
  | failed, _ => True
  | waiting _, e => e = .parked
  | _, _ => False

def discipline (incremental : Bool) : Discipline SessionSig Stop Refreshing where
  may := may incremental
  answers _ := Answered
  next := next incremental
  fails := Fallible

end Refreshing

/-! ## The protocol of a session -/

/-- The role of a task of a session. -/
inductive Role where
  | reader (r : Reading)
  | writer (w : Writing)
  | refresh (incremental : Bool) (r : Refreshing)
  | sender (command : Command) (s : Sending)
  | closer (d : Dying)

namespace Role

def may : Role → Op → Prop
  | reader r, o => r.may o
  | writer w, o => w.may o
  | refresh incremental r, o => r.may incremental o
  | sender command s, o => s.may command o
  | closer d, o => d.may o

def next (continuous : Bool) : Role → (o : Op) → o.Resp → Role
  | reader r, o, a => reader (r.next continuous o a)
  | writer w, o, a => writer (w.next o a)
  | refresh incremental r, o, a => refresh incremental (r.next incremental o a)
  | sender command s, o, a => sender command (s.next command o a)
  | closer d, o, a => closer (d.next o a)

def Fallible : Role → Stop → Prop
  | reader r, _ => r.Fallible
  | writer w, _ => w = .failed
  | refresh _ r, e => r.Fallible e
  | sender _ s, _ => s = .sent false
  | closer _, _ => False

/-- Only a refresh that has copied its frame returns one. -/
def Ended (returned : Returned) : Role → Prop
  | refresh _ (.copied _ frame) => returned = some frame
  | refresh _ _ => False
  | reader r => returned = none ∧ r.Rests
  | writer w => returned = none ∧ w.Rests
  | sender _ s => returned = none ∧ ∃ accepted, s = .sent accepted
  | closer d => returned = none ∧ d = .done

end Role

/-- The protocol the tasks of a session keep to. -/
def protocol (continuous : Bool) : Discipline SessionSig Stop Role where
  may := Role.may
  answers _ := Answered
  next := Role.next continuous
  fails := Role.Fallible

/-- The role a call begins in. -/
def Call.role : Call → Role
  | .refresh _ incremental _ => .refresh incremental .start
  | .pointer x y buttons => .sender (.write (pointerEvent x y buttons)) .check
  | .key keysym down => .sender (.write (keyEvent keysym down)) .check
  | .keyBurst events => .sender (.write (events.flatMap (fun e => keyEvent e.1 e.2))) .check
  | .cutText text => .sender (.write (clientCutText text)) .check
  | .close => .closer .swap

/-- Where the opener begins: only continuous mode has a first request. -/
def opening (continuous : Bool) : Sending := if continuous = true then .check else .sent true

/-- The role of each task of a session. -/
def sessionRoles (continuous : Bool) (calls : List Call) : Nat → Role
  | 0 => .reader .idle
  | 1 => .writer .ready
  | 2 => .sender (.request true) (opening continuous)
  | j + 3 => (calls[j]?.map Call.role).getD (.closer .done)

end Bolide.Rfb
