/-
Bolide.Testkit.Visits — one fake server and the clients it serves
(`run` and `apply_offline` of `bolide-testkit/src/server.rs`, and `serve`
around the loop of `Testkit.Server`).

The server's task serves one client at a time and takes a test's directives
all along: while nobody is connected, while a client is being let in, and
between two messages of a session. It is a state machine over what its
`select!`s wake up to, in any order they can come.

Translation notes. `serve` sends the ServerInit it made when the client
connected, so `opening` and `serving` carry it. `written` is what a session
has written after it, which the source does not keep. A write that fails may
have sent some of its bytes; the session is over either way. When every
`ServerControl` is gone the task stops, as for a `Shutdown`.
-/
import Bolide.Testkit.Handshake

namespace Bolide.Testkit

open Lib Rfb

/-- `apply_offline`: what a directive does to the screen. -/
def applyOffline (screen : Screen) : Directive → Outcome Screen
  | .setScreen new => .ok new
  | .resize w h => .ok (.solid w h Rfb.black)
  | .copyRect srcX srcY dstX dstY width height => blit screen srcX srcY dstX dstY width height
  | _ => .ok screen

/-- What the server's task wakes up to. -/
inductive Happening where
  -- a client connects, its `setup` returns, or fails
  | accepted
  | opened
  | refused
  -- an input of a session, and whether what it wrote could be written
  | served (input : Input) (sent : Bool)
  -- the reader of a session has ended
  | gone
  -- a directive outside a session
  | directive (directive : Directive)

/-- Where the server's task stands. -/
inductive Fake (c : Compress) where
  | waiting (screen : Screen)
  | opening (init : List UInt8) (screen : Screen)
  | serving (init : List UInt8) (srv : Server c) (written : List UInt8)
  | stopped

namespace Fake

variable {c : Compress}

/-- `run`, as the server is started. -/
def new (c : Compress) (cfg : FakeServerBuilder) : Fake c := waiting cfg.screen

/-- A directive that ends a session: whether the whole server is to stop. -/
def ended (srv : Server c) : Input → Fake c
  | .directive .shutdown => stopped
  | _ => waiting srv.screen

/-- One turn of the server's task: nothing when it does not wait for that. -/
def step (cfg : FakeServerBuilder) : Fake c → Happening → Outcome (Option (Fake c))
  | waiting screen, .accepted =>
      .ok (some (opening (serverInit screen cfg.desktopName) screen))
  | waiting _, .directive .shutdown => .ok (some stopped)
  | waiting screen, .directive d => do return some (waiting (← applyOffline screen d))
  | opening init screen, .opened =>
      .ok (some (serving init (.new c { cfg.toBuilder with screen }) []))
  | opening _ screen, .refused => .ok (some (waiting screen))
  | opening _ _, .directive .shutdown => .ok (some stopped)
  | opening _ screen, .directive .drop => .ok (some (waiting screen))
  | opening init screen, .directive d => do return some (opening init (← applyOffline screen d))
  | serving init srv written, .served input sent => do
      match ← serveInput cfg.toBuilder srv input with
      | none => return some (ended srv input)
      | some (bytes, srv) =>
          if sent = true then return some (serving init srv (written ++ bytes))
          else return some (waiting srv.screen)
  | serving _ srv _, .gone => .ok (some (waiting srv.screen))
  | _, _ => .ok none

/-- What the server has woken up to, and where it stands then, when every
turn met `P`. -/
inductive Reached (cfg : FakeServerBuilder) (P : Fake c → Happening → Prop) :
    List Happening → Fake c → Prop
  | new : Reached cfg P [] (new c cfg)
  | turn {hs : List Happening} {s s' : Fake c} {h : Happening} :
      Reached cfg P hs s → P s h → s.step cfg h = .ok (some s') → Reached cfg P (hs ++ [h]) s'

end Fake

namespace Happening

/-- The inputs of the session in progress, after one more happening. -/
def keep (inputs : List Input) : Happening → List Input
  | opened => []
  | served input _ => inputs ++ [input]
  | _ => inputs

/-- The inputs of the session in progress. -/
def inputs (hs : List Happening) : List Input := hs.foldl keep []

end Happening

end Bolide.Testkit
