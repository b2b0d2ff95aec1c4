/-
Bolide.Cli.Act — a command that acts, from its action to its exit code
(`bolide-cli/src/api.rs`, `act` of `run.rs`, `error.rs`).

`Client.computerRequest` is what the command sends, `arrive` what comes of it
at the server, and `Client.computer` what the command makes of what comes
back.

Translation notes. `reqwest` is a parameter: `Net.target` is the path and
query that a request to a URL asks for, and `Delivery` is how sending one
ends. A response that is cut short is an outcome of its own. The text on
standard output is `ActOutput`.
-/
import Bolide.Cli.Api
import Bolide.Lib.SocketAddr
import Bolide.Server.Http

namespace Bolide.Cli

open Lib Server

/-! ## The commands that act -/

/-- `Button`. -/
inductive Button where
  | left
  | right
  | middle
  deriving DecidableEq, Repr

/-- `Button::as_str`. -/
def Button.asStr : Button → String
  | .left => "left"
  | .right => "right"
  | .middle => "middle"

/-- `Button::from_name`. -/
def Button.fromName (name : String) : Option Button :=
  [Button.left, Button.right, Button.middle].find? (fun b => b.asStr = name)

/-- `Button::click_at`. -/
def Button.clickAt (x y : Int32) : Button → ComputerAction
  | .left => .leftClick (x, y)
  | .right => .rightClick (x, y)
  | .middle => .middleClick (x, y)

/-- `Dir`. -/
inductive Dir where
  | up
  | down
  deriving DecidableEq, Repr

/-- `impl From<Dir> for ScrollDirection`. -/
def Dir.scrollDirection : Dir → ScrollDirection
  | .up => .up
  | .down => .down

/-- The commands that `run` hands to `act`. -/
inductive ActCommand where
  | click (x y : Int32) (button : Button)
  | drag (x1 y1 x2 y2 : Int32)
  | move (x y : Int32)
  | type (text : String)
  | key (chord : String)
  | scroll (x y : Int32) (dir : Dir) (amount : UInt32)
  deriving DecidableEq, Repr

def actionForClick (x y : Int32) (button : String) : ComputerAction :=
  ((Button.fromName button).getD .left).clickAt x y

def actionForDrag (x1 y1 x2 y2 : Int32) : ComputerAction := .leftClickDrag (x1, y1) (x2, y2)

def actionForMove (x y : Int32) : ComputerAction := .mouseMove (x, y)

def actionForType (text : String) : ComputerAction := .type text

def actionForKey (chord : String) : ComputerAction := .key chord

def actionForScroll (x y : Int32) (dir : Dir) (amount : UInt32) : ComputerAction :=
  .scroll (x, y) dir.scrollDirection amount

/-- The action of a command. -/
def ActCommand.action : ActCommand → ComputerAction
  | .click x y button => actionForClick x y button.asStr
  | .drag x1 y1 x2 y2 => actionForDrag x1 y1 x2 y2
  | .move x y => actionForMove x y
  | .type text => actionForType text
  | .key chord => actionForKey chord
  | .scroll x y dir amount => actionForScroll x y dir amount

/-! ## Sending -/

/-- `url_for`. -/
def urlFor (base path : Text) : Text :=
  Text.trimEnd (· = '/') base ++ '/' :: path.dropWhile (· = '/')

/-- What is handed to `reqwest`. -/
structure Sent where
  method : Method
  url : Text
  authorization : List (List UInt8)
  body : List UInt8
  deriving DecidableEq, Repr

/-- `Client::get`. -/
def Client.get (http : Http) (client : Client) (path : String) : Except CliError Sent := do
  let authorization ← client.authed http
  return ⟨.get, urlFor client.base.toList path.toList, authorization, []⟩

/-- `Client::post`, with a document for its body. -/
def Client.post (serde : SerdeJson) (http : Http) (client : Client) (path : String) (doc : Json) :
    Except CliError Sent := do
  let authorization ← client.authed http
  return ⟨.post, urlFor client.base.toList path.toList, authorization, serde.write doc⟩

/-- The request of `Client::computer`. -/
def Client.computerRequest (serde : SerdeJson) (http : Http) (client : Client)
    (action : ComputerAction) : Except CliError Sent :=
  client.post serde http "/computer" action.toJson

/-- `reqwest`: the path and the query that a request to a URL asks for. -/
structure Net where
  target : Text → Option (Text × Option Text)

/-- The address has no scope. -/
def unscoped : SocketAddr → Prop
  | .v4 _ _ => True
  | .v6 _ _ _ scopeId => scopeId = 0

/-- A request to a route of a server asks for that route. -/
structure Net.Lawful (net : Net) : Prop where
  target : ∀ addr path, unscoped addr →
    path ∈ ["/computer", "/screenshot", "/clipboard", "/status"] →
    net.target ("http://".toList ++ addr.display ++ path.toList) = some (path.toList, none)

/-- What arrives of a request. -/
def arrive (http : Http) (net : Net) (sent : Sent) : Option Request := do
  let (path, query) ← net.target sent.url
  return ⟨sent.method, path, query, sent.authorization.map http.carried, sent.body⟩

/-! ## What comes back -/

/-- How sending a request ends. -/
inductive Delivery where
  | noConnection
  | timedOut
  | failed (e : String)
  | cutShort (e : String)
  | answered (response : Response)
  deriving DecidableEq, Repr

/-- `error_from_response`. -/
def errorFromResponse (serde : SerdeJson) (status : Nat) (body : List UInt8) : CliError :=
  match serde.fromSlice "ErrorResponse" Wire.ErrorResponse.ofJson body with
  | .ok err =>
      match err.error with
      | .disconnected => .notConnected err.message
      | .unauthorized => CommandLine.usage err.message
      | _ => .failure err.message
  | .error _ =>
      let text := Text.trim (Text.fromUtf8Lossy body)
      if text = [] then .failure s!"the bolide server answered {status}"
      else .failure s!"the bolide server answered {status}: {String.ofList text}"

/-- `Client::send`, once it has ended. -/
def Client.send (serde : SerdeJson) (client : Client) : Delivery → Except CliError (List UInt8)
  | .noConnection => .error (.notConnected
      (s!"nothing is listening at {client.base}; run `bolide connect vnc://HOST` " ++
        "(or `bolide disconnect` to clear the stale session)"))
  | .timedOut => .error (.failure s!"the bolide server at {client.base} did not answer in time")
  | .failed e => .error (.failure s!"could not reach the bolide server at {client.base}: {e}")
  | .cutShort e => .error (.failure s!"the bolide server cut the answer short: {e}")
  | .answered response =>
      if 200 ≤ response.status ∧ response.status < 300 then .ok response.body
      else .error (errorFromResponse serde response.status response.body)

/-- `Client::json`. -/
def readAnswer {α : Type} (serde : SerdeJson) (type : String) (ofJson : Json → Option α)
    (body : List UInt8) : Except CliError α :=
  match serde.fromSlice type ofJson body with
  | .ok a => .ok a
  | .error e => .error (.failure s!"the bolide server answered something unexpected: {e}")

/-- `Client::computer`, once its request has ended. -/
def Client.computer (serde : SerdeJson) (client : Client) (outcome : Delivery) :
    Except CliError Wire.ComputerResponse := do
  let body ← client.send serde outcome
  readAnswer serde "ComputerResponse" Wire.ComputerResponse.ofJson body

/-- What is printed, on success. -/
abbrev ActOutput := Option Coordinate

/-- `act`, once its request has ended. -/
def act (serde : SerdeJson) (client : Client) (outcome : Delivery) : Except CliError ActOutput := do
  let response ← client.computer serde outcome
  return response.coordinate

/-- The exit code of a command. -/
def exitCode {α : Type} : Except CliError α → UInt8
  | .ok _ => 0
  | .error stop => stop.code

end Bolide.Cli
