/-
Bolide.Server.Wire — the HTTP wire, as documents
(`bolide-server/src/wire.rs`).

Each type is written as the object of its fields and read as its derived
reader does. `Spells` says which documents an action is read from, and
`ofJson_iff` that it is those: an object with its tag and its fields, each
once and in any order among any others, or an array of them in their order.

Translation notes. `serde_json` is a parameter: `SerdeJson` has the bytes it
writes, the document it makes of bytes, and its text where a type is not read
from them; `SerdeJson.Lawful` is what is documented of it. A direction may be
spelled as a string, or as an object of one field that holds nothing.
-/
import Bolide.Lib.Fields
import Bolide.Lib.Utf8
import Bolide.Server.Actions
import Bolide.Server.FreshFrame

namespace Bolide.Server

open Lib Json

/-! ## `serde_json` -/

structure SerdeJson where
  -- `to_vec`
  write : Json → List UInt8
  -- the document that `from_slice` reads
  parse : List UInt8 → Option Json
  -- `Display` of the error of `from_slice`, at a type
  explain : String → List UInt8 → String

/-- What is written is read back, as long as it can be spoken. -/
structure SerdeJson.Lawful (serde : SerdeJson) : Prop where
  reads : ∀ v, Spoken 127 v → serde.parse (serde.write v) = some v

/-- `from_slice`, at a type. -/
def SerdeJson.fromSlice {α : Type} (serde : SerdeJson) (type : String) (ofJson : Json → Option α)
    (bytes : List UInt8) : Except String α :=
  match (serde.parse bytes).bind ofJson with
  | some a => .ok a
  | none => .error (serde.explain type bytes)

/-- The text of documents, as UTF-8. -/
def SerdeJson.plain : SerdeJson where
  write v := Text.utf8Bytes v.text
  parse bytes := (((ByteArray.mk bytes.toArray).utf8Decode?).map Array.toList).bind Json.read
  explain type _ := s!"no {type}"

/-- `[x, y]`. -/
def coordinateJson (coordinate : Coordinate) : Json :=
  .arr [.int coordinate.1.toInt, .int coordinate.2.toInt]

/-- A number that JSON cannot spell is `null`. -/
def floatJson (x : Float) : Json := if x.isFinite = true then .float x else .null

def ScrollDirection.name : ScrollDirection → String
  | .up => "up"
  | .down => "down"

namespace ComputerAction

/-- The tag of an action. -/
def tag : ComputerAction → String
  | screenshot => "screenshot"
  | leftClick _ => "left_click"
  | rightClick _ => "right_click"
  | middleClick _ => "middle_click"
  | doubleClick _ => "double_click"
  | tripleClick _ => "triple_click"
  | leftClickDrag _ _ => "left_click_drag"
  | mouseMove _ => "mouse_move"
  | type _ => "type"
  | key _ => "key"
  | scroll _ _ _ => "scroll"
  | cursorPosition => "cursor_position"
  | wait _ => "wait"

/-- The fields of an action. -/
def fields : ComputerAction → List (String × Json)
  | screenshot => []
  | leftClick coordinate => [("coordinate", coordinateJson coordinate)]
  | rightClick coordinate => [("coordinate", coordinateJson coordinate)]
  | middleClick coordinate => [("coordinate", coordinateJson coordinate)]
  | doubleClick coordinate => [("coordinate", coordinateJson coordinate)]
  | tripleClick coordinate => [("coordinate", coordinateJson coordinate)]
  | leftClickDrag startCoordinate coordinate =>
      [("start_coordinate", coordinateJson startCoordinate),
        ("coordinate", coordinateJson coordinate)]
  | mouseMove coordinate => [("coordinate", coordinateJson coordinate)]
  | type text => [("text", .str text)]
  | key text => [("text", .str text)]
  | scroll coordinate direction amount =>
      [("coordinate", coordinateJson coordinate), ("scroll_direction", .str direction.name),
        ("scroll_amount", .int amount.toNat)]
  | cursorPosition => []
  | wait duration => [("duration", floatJson duration)]

/-- `Serialize`. -/
def toJson (action : ComputerAction) : Json := .obj (("action", .str action.tag) :: action.fields)

/-- A variant with a coordinate. -/
def readAt (make : Coordinate → ComputerAction) (beside : Json) : Option ComputerAction := do
  match ← beside.required ["coordinate"] with
  | [coordinate] => return make (← coordinate.toPair)
  | _ => none

/-- A variant with a text. -/
def readText (make : String → ComputerAction) (beside : Json) : Option ComputerAction := do
  match ← beside.required ["text"] with
  | [text] => return make (← text.toStr)
  | _ => none

/-- A variant that holds nothing. -/
def readUnit (action : ComputerAction) (beside : Json) : Option ComputerAction :=
  if beside.isUnit = true then some action else none

def readDrag (beside : Json) : Option ComputerAction := do
  match ← beside.required ["start_coordinate", "coordinate"] with
  | [start, stop] => return leftClickDrag (← start.toPair) (← stop.toPair)
  | _ => none

/-- The direction of a name. -/
def readDirection (v : Json) : Option ScrollDirection := do
  let name ← v.toVariant true
  if name = "up" then some .up else if name = "down" then some .down else none

def readScroll (beside : Json) : Option ComputerAction := do
  match ← beside.required ["coordinate", "scroll_direction", "scroll_amount"] with
  | [coordinate, direction, amount] =>
      return scroll (← coordinate.toPair) (← readDirection direction) (← amount.toUInt32)
  | _ => none

def readWait (beside : Json) : Option ComputerAction := do
  match ← beside.required ["duration"] with
  | [duration] => return wait (← duration.toFloat)
  | _ => none

/-- What is read beside each tag. -/
def readers : List (String × (Json → Option ComputerAction)) :=
  [("screenshot", readUnit screenshot), ("left_click", readAt leftClick),
    ("right_click", readAt rightClick), ("middle_click", readAt middleClick),
    ("double_click", readAt doubleClick), ("triple_click", readAt tripleClick),
    ("left_click_drag", readDrag), ("mouse_move", readAt mouseMove), ("type", readText type),
    ("key", readText key), ("scroll", readScroll), ("cursor_position", readUnit cursorPosition),
    ("wait", readWait)]

/-- `Deserialize`. -/
def ofJson (doc : Json) : Option ComputerAction := do
  let (tag, beside) ← doc.tagged "action"
  (← readers.lookup tag) beside

end ComputerAction

/-! ## Answers -/

namespace Wire

/-- A base64 PNG. -/
structure Image where
  format : String
  data : String
  width : UInt16
  height : UInt16
  deriving DecidableEq, Repr

/-- The answer to `POST /computer`. -/
structure ComputerResponse where
  ok : Bool
  image : Option Image
  coordinate : Option Coordinate
  deriving DecidableEq, Repr

/-- Every error body bolide returns. -/
structure ErrorResponse where
  ok : Bool
  error : ErrorCode
  message : String
  deriving DecidableEq, Repr

def Image.toJson (image : Image) : Json :=
  .obj [("format", .str image.format), ("data", .str image.data), ("width", .int image.width.toNat),
    ("height", .int image.height.toNat)]

def Image.ofJson (doc : Json) : Option Image := do
  match ← doc.required ["format", "data", "width", "height"] with
  | [format, data, width, height] =>
      return ⟨← format.toStr, ← data.toStr, ← width.toUInt16, ← height.toUInt16⟩
  | _ => none

def ComputerResponse.toJson (response : ComputerResponse) : Json :=
  .obj (("ok", .bool response.ok) ::
    ((response.image.map (fun image => ("image", image.toJson))).toList ++
      (response.coordinate.map (fun coordinate => ("coordinate", coordinateJson coordinate))).toList))

def ComputerResponse.ofJson (doc : Json) : Option ComputerResponse := do
  match ← doc.withDefaults ["ok", "image", "coordinate"] with
  | [some ok, image, coordinate] =>
      return ⟨← ok.toBool, ← toNullable Image.ofJson image, ← toNullable Json.toPair coordinate⟩
  | _ => none

def codeName : ErrorCode → String
  | .badRequest => "bad_request"
  | .outOfBounds => "out_of_bounds"
  | .unknownKey => "unknown_key"
  | .unauthorized => "unauthorized"
  | .disconnected => "disconnected"
  | .timeout => "timeout"
  | .internal => "internal"

/-- Every code. -/
def codes : List ErrorCode :=
  [.badRequest, .outOfBounds, .unknownKey, .unauthorized, .disconnected, .timeout, .internal]

def codeOfJson (v : Json) : Option ErrorCode := do
  let name ← v.toVariant false
  codes.find? (fun code => codeName code = name)

def ErrorResponse.toJson (response : ErrorResponse) : Json :=
  .obj [("ok", .bool response.ok), ("error", .str (codeName response.error)),
    ("message", .str response.message)]

def ErrorResponse.ofJson (doc : Json) : Option ErrorResponse := do
  match ← doc.required ["ok", "error", "message"] with
  | [ok, error, message] => return ⟨← ok.toBool, ← codeOfJson error, ← message.toStr⟩
  | _ => none

/-- `ErrorResponse::new`. -/
def ErrorResponse.new (error : ErrorCode) (message : String) : ErrorResponse where
  ok := false
  error := error
  message := message

/-- What `POST /clipboard` is asked with. -/
def clipboardRequestOfJson (doc : Json) : Option String := do
  match ← doc.required ["text"] with
  | [text] => text.toStr
  | _ => none

def clipboardRequestJson (text : String) : Json := .obj [("text", .str text)]

end Wire

end Bolide.Server
