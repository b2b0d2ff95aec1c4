/-
Bolide.Server.Http — the routes, from a request to its answer
(`bolide-server/src/http.rs`).

`dispatch` is what becomes of a request before anything is done: it is
answered at once, or it is a `Job` of the server. `answer` is what is sent
once the handler of a job has ended.

Translation notes. A response is its status and its body. The PNG and base64
encoders are parameters, `Images`. `GET /clipboard` and `GET /status` read
the session, and what they read is left out; so is the answer of
`POST /clipboard`, whose job keeps none, and a HEAD request, which `axum`
answers as a GET without its body. A handler that is dropped, or that
panics, answers nothing.
-/
import Bolide.Server.Computer
import Bolide.Server.Token
import Bolide.Server.Wire

namespace Bolide.Server

open Lib Bolide.Rfb

/-! ## Requests and responses -/

inductive Method where
  | get
  | post
  | other
  deriving DecidableEq, Repr

structure Request where
  method : Method
  path : Text
  query : Option Text
  authorization : List (List UInt8)
  body : List UInt8
  deriving DecidableEq, Repr

structure Response where
  status : Nat
  body : List UInt8
  deriving DecidableEq, Repr

/-- `status_for`. -/
def statusFor : ErrorCode → Nat
  | .badRequest | .outOfBounds | .unknownKey => 400
  | .unauthorized => 401
  | .disconnected => 503
  | .timeout => 504
  | .internal => 500

/-- `impl IntoResponse for ApiError`. -/
def ApiError.intoResponse (serde : SerdeJson) (e : ApiError) : Response where
  status := statusFor e.code
  body := serde.write (Wire.ErrorResponse.new e.code e.message).toJson

/-- `ApiError::internal`. -/
def ApiError.internalError : ApiError :=
  ⟨.internal, "bolide could not complete the request; see the server log"⟩

/-- `wants_json`. -/
def wantsJson (query : Option Text) : Bool :=
  query.any (fun q => (q.splitOn '&').any (fun pair => pair.map Char.toLower = "format=json".toList))

/-- `parse_body`. -/
def parseBody {α : Type} (serde : SerdeJson) (type : String) (ofJson : Json → Option α)
    (body : List UInt8) : Except ApiError α :=
  match serde.fromSlice type ofJson body with
  | .ok a => .ok a
  | .error err => .error ⟨.badRequest, s!"the request body did not parse: {err}"⟩

/-! ## The routes -/

inductive Route where
  | computer
  | screenshot
  | clipboardGet
  | clipboardPost
  | status
  | healthz
  deriving DecidableEq, Repr

/-- The table of `router`: a route, or the status of a request that has none. -/
def route (method : Method) (path : Text) : Except Nat Route :=
  if path = "/computer".toList then
    if method = .post then .ok .computer else .error 405
  else if path = "/screenshot".toList then
    if method = .get then .ok .screenshot else .error 405
  else if path = "/clipboard".toList then
    match method with
    | .get => .ok .clipboardGet
    | .post => .ok .clipboardPost
    | .other => .error 405
  else if path = "/status".toList then
    if method = .get then .ok .status else .error 405
  else if path = "/healthz".toList then
    if method = .get then .ok .healthz else .error 405
  else .error 404

/-- What becomes of a request. -/
inductive Dispatched where
  | answered (response : Response)
  | reads (route : Route)
  | job (job : Job)

/-- The handler of a route behind the gate, up to what it does. -/
def handler (serde : SerdeJson) (n : Nat) (body : List UInt8) : Route → Dispatched
  | .computer =>
      match parseBody serde "ComputerAction" ComputerAction.ofJson body with
      | .ok action => .job (.computer n action)
      | .error e => .answered (e.intoResponse serde)
  | .screenshot => .job (.screenshot n)
  | .clipboardPost =>
      match parseBody serde "ClipboardRequest" Wire.clipboardRequestOfJson body with
      | .ok text => .job (.clipboard text)
      | .error e => .answered (e.intoResponse serde)
  | .healthz => .answered ⟨200, Text.utf8Bytes "ok".toList⟩
  | route => .reads route

/-- A request, past the routes and the gate. -/
def dispatch (serde : SerdeJson) (http : Http) (token : Option Text) (n : Nat)
    (request : Request) : Dispatched :=
  match route request.method request.path with
  | .error status => .answered ⟨status, []⟩
  | .ok .healthz => handler serde n request.body .healthz
  | .ok route =>
      match requireToken http token request.authorization with
      | .error e => .answered (e.intoResponse serde)
      | .ok () => handler serde n request.body route

/-! ## The answers -/

/-- The encoders of an image. -/
structure Images where
  -- `encode_png`
  png : Framebuffer → Except String (List UInt8)
  -- the standard alphabet, with padding
  base64 : List UInt8 → String

/-- `to_png`. -/
def Images.toPng (images : Images) (frame : Framebuffer) : Except ApiError (List UInt8) :=
  match images.png frame with
  | .ok bytes => .ok bytes
  | .error _ => .error .internalError

/-- `to_image`. -/
def Images.toImage (images : Images) (frame : Framebuffer) : Except ApiError Wire.Image :=
  match images.toPng frame with
  | .ok bytes => .ok ⟨"png", images.base64 bytes, frame.width, frame.height⟩
  | .error e => .error e

/-- The image of an answer, if it has one. -/
def Images.ofFrame (images : Images) : Option Framebuffer → Except ApiError (Option Wire.Image)
  | none => .ok none
  | some frame =>
      match images.toImage frame with
      | .ok image => .ok (some image)
      | .error e => .error e

/-- The answer of `computer`. -/
def computerResponse (serde : SerdeJson) (images : Images) (r : ComputerResponse) : Response :=
  match images.ofFrame r.image with
  | .ok image => ⟨200, serde.write (Wire.ComputerResponse.toJson ⟨r.ok, image, r.coordinate⟩)⟩
  | .error e => e.intoResponse serde

/-- The answer of `screenshot`. -/
def screenshotResponse (serde : SerdeJson) (images : Images) (query : Option Text)
    (frame : Framebuffer) : Response :=
  if wantsJson query = true then
    match images.toImage frame with
    | .ok image => ⟨200, serde.write image.toJson⟩
    | .error e => e.intoResponse serde
  else
    match images.toPng frame with
    | .ok bytes => ⟨200, bytes⟩
    | .error e => e.intoResponse serde

/-- What is sent when the handler of a job has ended. -/
def answer (serde : SerdeJson) (images : Images) (query : Option Text) :
    Except Left Reply → Option Response
  | .ok (.computer r) => some (computerResponse serde images r)
  | .ok (.frame frame) => some (screenshotResponse serde images query frame)
  | .error (.refused (.api e)) => some (e.intoResponse serde)
  | _ => none

end Bolide.Server
