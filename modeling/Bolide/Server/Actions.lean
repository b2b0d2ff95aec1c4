/-
Bolide.Server.Actions — an action as RFB operations
(`bolide-server/src/actions.rs`, and the actions of `wire.rs`).

`plan` is pure: it turns an action into the operations that perform it, or
says why there are none.

Translation notes. `drag` works in `i64` on values of at most `2 * 65535 *
65535`, so it works in `Int` here; `/` truncates and `as u16` wraps. The
duration of a `wait` is a float, and `as u64` saturates.
-/
import Bolide.Rfb.Keysym

namespace Bolide.Server

open Lib Bolide.Rfb

/-! ## Actions and operations -/

/-- Which way a wheel notch goes. -/
inductive ScrollDirection where
  | up
  | down
  deriving DecidableEq, Repr

/-- `[x, y]`. -/
abbrev Coordinate := Int32 × Int32

/-- One computer-use action. -/
inductive ComputerAction where
  | screenshot
  | leftClick (coordinate : Coordinate)
  | rightClick (coordinate : Coordinate)
  | middleClick (coordinate : Coordinate)
  | doubleClick (coordinate : Coordinate)
  | tripleClick (coordinate : Coordinate)
  | leftClickDrag (startCoordinate coordinate : Coordinate)
  | mouseMove (coordinate : Coordinate)
  | type (text : String)
  | key (text : String)
  | scroll (coordinate : Coordinate) (scrollDirection : ScrollDirection) (scrollAmount : UInt32)
  | cursorPosition
  | wait (duration : Float)

/-- One thing to do to the RFB session. -/
inductive RfbOp where
  | pointer (x y : UInt16) (buttons : UInt8)
  | key (keysym : UInt32) (down : Bool)
  | sleep (ms : UInt64)
  deriving DecidableEq, Repr

/-- How `left_click_drag` moves. -/
structure DragPacing where
  steps : UInt16
  stepMs : UInt64
  dwellMs : UInt64
  deriving DecidableEq, Repr

/-- What `plan` needs to know about the session. -/
structure PlanContext where
  width : UInt16
  height : UInt16
  drag : DragPacing
  deriving DecidableEq, Repr

/-- Why an action could not be planned. -/
inductive ActionError where
  | outOfBounds (x y : Int32) (width height : UInt16)
  | unknownKey (e : UnknownKey)
  deriving DecidableEq, Repr

/-- `Display` of an `ActionError`. -/
def ActionError.display : ActionError → String
  | .outOfBounds x y width height =>
      s!"coordinate ({x}, {y}) is outside the {width}x{height} screen"
  | .unknownKey e => e.display

/-! ## Pointer events -/

def buttonLeft : UInt8 := 1
def buttonMiddle : UInt8 := 2
def buttonRight : UInt8 := 4
def buttonWheelUp : UInt8 := 8
def buttonWheelDown : UInt8 := 16

/-- `PlanContext::check`: one coordinate, as pixel indices. -/
def PlanContext.check (ctx : PlanContext) (coordinate : Coordinate) :
    Except ActionError (UInt16 × UInt16) :=
  let (x, y) := coordinate
  if x.toInt < 0 ∨ y.toInt < 0 ∨ ctx.width.toNat ≤ x.toInt ∨ ctx.height.toNat ≤ y.toInt then
    .error (.outOfBounds x y ctx.width ctx.height)
  else .ok (UInt16.ofInt x.toInt, UInt16.ofInt y.toInt)

/-- `clicks_at`: `move → press → release` at one point, `count` times over one move. -/
def clicksAt (x y : UInt16) (buttons : UInt8) (count : Nat) : List RfbOp :=
  .pointer x y 0 ::
    (List.replicate count [RfbOp.pointer x y buttons, RfbOp.pointer x y 0]).flatten

/-- The `i`-th of `n` points from `start` to `stop`, rounded to the nearest. -/
def along (start stop : UInt16) (i n : Int) : UInt16 :=
  let offset := ((stop.toNat : Int) - start.toNat) * i
  let rounded := (2 * offset + offset.sign * n).tdiv (2 * n)
  UInt16.ofInt (start.toNat + rounded)

/-- A wait of zero plans no `Sleep` at all. -/
def pause (ms : UInt64) : List RfbOp := if 0 < ms then [.sleep ms] else []

/-- One held move of a drag. -/
def heldMove (start stop : UInt16 × UInt16) (pacing : DragPacing) (n i : Nat) : List RfbOp :=
  (if 1 < i then pause pacing.stepMs else []) ++
    [.pointer (along start.1 stop.1 i n) (along start.2 stop.2 i n) buttonLeft]

/-- `drag`, from `start` to `stop`. -/
def drag (start stop : UInt16 × UInt16) (pacing : DragPacing) : List RfbOp :=
  let n := (max pacing.steps 1).toNat
  [.pointer start.1 start.2 0, .pointer start.1 start.2 buttonLeft] ++ pause pacing.dwellMs ++
    (List.range' 1 n).flatMap (heldMove start stop pacing n) ++ pause pacing.dwellMs ++
    [.pointer stop.1 stop.2 0]

/-! ## Key events -/

/-- `keysym_for_typed`. -/
def keysymForTyped (c : Char) : Except UnknownKey UInt32 :=
  let named (name : String) : Except UnknownKey UInt32 :=
    match keysymFor name with
    | some k => .ok k
    | none => .error ⟨name⟩
  if c = '\n' ∨ c = '\r' then named "Return"
  else if c = '\t' then named "Tab"
  else .ok (keysymForChar c)

/-- A failure of the keysym tables. -/
def orUnknown {α : Type} : Except UnknownKey α → Except ActionError α
  | .ok a => .ok a
  | .error e => .error (.unknownKey e)

/-- `type`: a key press and release per character. -/
def typed : List Char → Except ActionError (List RfbOp)
  | [] => .ok []
  | c :: rest => do
      let keysym ← orUnknown (keysymForTyped c)
      let ops ← typed rest
      return .key keysym true :: .key keysym false :: ops

/-- `key`: pressed in order and released in reverse. -/
def chord (syms : List UInt32) : List RfbOp :=
  syms.map (fun keysym => .key keysym true) ++ syms.reverse.map (fun keysym => .key keysym false)

/-! ## `plan` -/

/-- The milliseconds of a `wait`. -/
def waitMs (duration : Float) : UInt64 :=
  let seconds := if duration.isNaN then 0 else if 0 < duration then duration else 0
  (seconds * 1000).toUInt64

/-- A click at a coordinate that is on the screen. -/
def clickAt (ctx : PlanContext) (coordinate : Coordinate) (buttons : UInt8) (count : Nat) :
    Except ActionError (List RfbOp) := do
  let (x, y) ← ctx.check coordinate
  return clicksAt x y buttons count

/-- The wheel button of a direction. -/
def ScrollDirection.button : ScrollDirection → UInt8
  | .up => buttonWheelUp
  | .down => buttonWheelDown

/-- `plan`: the RFB operations that perform an action. -/
def plan (action : ComputerAction) (ctx : PlanContext) : Except ActionError (List RfbOp) :=
  match action with
  | .screenshot => .ok []
  | .cursorPosition => .ok []
  | .leftClick coordinate => clickAt ctx coordinate buttonLeft 1
  | .rightClick coordinate => clickAt ctx coordinate buttonRight 1
  | .middleClick coordinate => clickAt ctx coordinate buttonMiddle 1
  | .doubleClick coordinate => clickAt ctx coordinate buttonLeft 2
  | .tripleClick coordinate => clickAt ctx coordinate buttonLeft 3
  | .leftClickDrag startCoordinate coordinate => do
      let start ← ctx.check startCoordinate
      let stop ← ctx.check coordinate
      return drag start stop ctx.drag
  | .mouseMove coordinate => do
      let (x, y) ← ctx.check coordinate
      return [.pointer x y 0]
  | .scroll coordinate scrollDirection scrollAmount => do
      let (x, y) ← ctx.check coordinate
      if scrollAmount = 0 then return []
      else return clicksAt x y scrollDirection.button scrollAmount.toNat
  | .type text => typed text.toList
  | .key text => do
      let syms ← orUnknown (parseChord text)
      return chord syms
  | .wait duration => .ok [.sleep (waitMs duration)]

/-! ## What a session receives of it -/

/-- A PointerEvent or a KeyEvent. -/
inductive Input where
  | pointer (x y : UInt16) (buttons : UInt8)
  | key (keysym : UInt32) (down : Bool)
  deriving DecidableEq, Repr

/-- The event an operation sends. -/
def RfbOp.input? : RfbOp → Option Input
  | .pointer x y buttons => some (.pointer x y buttons)
  | .key keysym down => some (.key keysym down)
  | .sleep _ => none

/-- The events a plan sends, in order. -/
def inputs (ops : List RfbOp) : List Input := ops.filterMap RfbOp.input?

theorem inputs_append (ops ops' : List RfbOp) : inputs (ops ++ ops') = inputs ops ++ inputs ops' :=
  List.filterMap_append

/-- The message an event is sent as. -/
def Input.message : Input → List UInt8
  | .pointer x y buttons => pointerEvent x y buttons
  | .key keysym down => keyEvent keysym down

/-- The event a message to the desktop is, if it is one. -/
def Input.ofMessage? : List UInt8 → Option Input
  | [5, buttons, x₁, x₀, y₁, y₀] =>
      some (.pointer (ofBe16 [x₁, x₀]) (ofBe16 [y₁, y₀]) buttons)
  | [4, down, 0, 0, k₃, k₂, k₁, k₀] => some (.key (ofBe32 [k₃, k₂, k₁, k₀]) (down ≠ 0))
  | _ => none

end Bolide.Server
