/-
Bolide.Server.FreshFrame — how a screenshot gets its frame
(`fresh_frame` in `bolide-server/src/http.rs`).

A handler is a task over the session's operations and the server's own:
the record of the last input, and the clock. `serverDoes` says what the
operations of both kinds do.

Translation notes. The clock is the one of `AppState::config`; a sleep ends
at any time from its deadline on. `lastInput` is stamped by the handler of
an action. A handler ends in an answer, in an `ApiError`, or not at all. An
internal error's detail goes to the log and is left out.
-/
import Bolide.Rfb.Handle

namespace Bolide.Server

open Lib Bolide.Rfb

/-! ## Errors -/

/-- `wire::ErrorCode`. -/
inductive ErrorCode where
  | badRequest
  | outOfBounds
  | unknownKey
  | unauthorized
  | disconnected
  | timeout
  | internal
  deriving DecidableEq, Repr

/-- A failure on its way out. -/
structure ApiError where
  code : ErrorCode
  message : String
  deriving DecidableEq, Repr

/-- Why a handler did not answer. -/
inductive Refusal where
  | api (e : ApiError)
  | panic
  | parked
  deriving DecidableEq, Repr

/-- The digits of a fraction, without the zeros at its end. -/
def fraction : Nat → Nat → List Char
  | 0, _ => []
  | digits + 1, n =>
      if n = 0 then [] else Nat.digitChar (n / 10 ^ digits) :: fraction digits (n % 10 ^ digits)

/-- `{:?}` of a `Duration`. -/
def debugDuration (d : Duration) : String :=
  let (unit, digits, suffix) :=
    if 1000000000 ≤ d then (1000000000, 9, "s")
    else if 1000000 ≤ d then (1000000, 6, "ms")
    else if 1000 ≤ d then (1000, 3, "µs")
    else (1, 0, "ns")
  let frac := fraction digits (d % unit)
  toString (d / unit) ++ (if frac = [] then "" else "." ++ String.ofList frac) ++ suffix

/-- `from_rfb`: an RFB failure, classified for a caller. -/
def fromRfb : Error → ApiError
  | .closed => ⟨.disconnected, "the RFB session is gone; reconnect with `bolide connect`"⟩
  | .timeout after => ⟨.timeout, s!"the desktop sent no frame within {debugDuration after}"⟩
  | _ => ⟨.internal, "bolide could not complete the request; see the server log"⟩

/-- `map_err(from_rfb)`. -/
def fromStop : Stop → Refusal
  | .err e => .api (fromRfb e)
  | .panic => .panic
  | .parked => .parked

/-! ## Operations -/

/-- The server's own operations. -/
inductive AppOp where
  | takeLastInput
  | stampInput
  | now
  | sleepUntil (deadline : Duration)
  | tick (d : Duration)

abbrev AppOp.Resp : AppOp → Type
  | .takeLastInput => Option Duration
  | .now => Duration
  | _ => Unit

abbrev AppSig : Sig where
  Op := AppOp
  Resp := AppOp.Resp

/-- A task of the server. -/
abbrev ServerTask (α : Type) := Prog (SessionSig.sum AppSig) Refusal α

/-- The parts of `AppState` a screenshot reads. -/
structure App where
  lastInput : Option Duration
  time : Duration
  deriving DecidableEq, Repr

/-- One of the server's own operations. -/
def App.exec : (o : AppOp) → App → Option (o.Resp × App)
  | .takeLastInput, a => some (a.lastInput, { a with lastInput := none })
  | .stampInput, a => some ((), { a with lastInput := some a.time })
  | .now, a => some (a.time, a)
  | .sleepUntil deadline, a => if deadline ≤ a.time then some ((), a) else none
  | .tick d, a => some ((), { a with time := a.time + d })

/-- One operation of one task of the server. -/
def serverDoes : Does (SessionSig.sum AppSig) (Inner × App) Own Choice
  | .inl o, m, s, own => (sessionDoes o m s.1 own).map (fun (r, i, own) => (r, (i, s.2), own))
  | .inr o, _, s, own => (App.exec o s.2).map (fun (r, a) => (r, (s.1, a), own))

/-- An operation of the session. -/
def ses (o : Op) : ServerTask o.Resp := .step (.inl o) .ret

/-- An operation of the server's own. -/
def app (o : AppOp) : ServerTask o.Resp := .step (.inr o) .ret

/-! ## `fresh_frame` -/

/-- What a screenshot uses of `ServerConfig`. -/
structure ServerConfig where
  inputSettle : Duration
  frameTimeout : Duration
  deriving DecidableEq, Repr

def incrementalWait : Duration := 250 * 1000000
def afterInputWait : Duration := 2 * 1000000000

/-- `clock.sleep`. -/
def sleep (d : Duration) : ServerTask Unit := do
  let now ← app .now
  app (.sleepUntil (now + d))

/-- Let an input settle, or what is left of it. -/
def settle (config : ServerConfig) : Option Duration → ServerTask Unit
  | none => pure ()
  | some at' => do
      let settled := at' + config.inputSettle
      let now ← app .now
      if now < settled then sleep (settled - now) else pure ()

/-- The screen was unpainted: the frame `refresh` brings, or its error. -/
def answerFresh : Except Stop Framebuffer → ServerTask Framebuffer
  | .ok frame => pure frame
  | .error e => Prog.fail (fromStop e)

/-- The screen was painted: a timeout falls back on the frame there is. -/
def answerPainted : Except Stop Framebuffer → ServerTask Framebuffer
  | .ok frame => pure frame
  | .error (.err (.timeout _)) => ses .framebuffer
  | .error e => Prog.fail (fromStop e)

/-- `fresh_frame`. -/
def freshFrame (config : ServerConfig) (n : Nat) : ServerTask Framebuffer := do
  let lastInput ← app .takeLastInput
  settle config lastInput
  let painted ← ses .painted
  if painted = false then
    let frame ← (refresh n false config.frameTimeout).call
    answerFresh frame
  else
    let wait := min config.frameTimeout
      (if lastInput.isSome then afterInputWait else incrementalWait)
    let frame ← (refresh n true wait).call
    answerPainted frame

end Bolide.Server
