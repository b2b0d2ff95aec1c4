/-
Bolide.Server.WireTheorems — what an action is read from, and round trips.

`ComputerAction.spelled` gives the fields of an action with what may stand in
each, and `Spells` the documents that have them. An action is read from a
document exactly when that spells it (`ofJson_iff`); the reader of each shape
of variant is dealt with once, in terms of `Json.Holds`. What is written
spells the action, as long as its numbers can be spelled at all.
-/
import Bolide.Server.Wire

namespace Bolide.Server

open Lib Json

/-! ## What spells an action -/

/-- The documents of a direction. -/
def ScrollDirection.Spelled (direction : ScrollDirection) (v : Json) : Prop :=
  v = .str direction.name ∨ v = .obj [(direction.name, .null)] ∨
    v = .obj [(direction.name, .obj [])]

namespace ComputerAction

/-- The fields of an action, and what may stand in each. -/
def spelled : ComputerAction → List (String × (Json → Prop))
  | screenshot => []
  | leftClick coordinate => [("coordinate", (· = coordinateJson coordinate))]
  | rightClick coordinate => [("coordinate", (· = coordinateJson coordinate))]
  | middleClick coordinate => [("coordinate", (· = coordinateJson coordinate))]
  | doubleClick coordinate => [("coordinate", (· = coordinateJson coordinate))]
  | tripleClick coordinate => [("coordinate", (· = coordinateJson coordinate))]
  | leftClickDrag startCoordinate coordinate =>
      [("start_coordinate", (· = coordinateJson startCoordinate)),
        ("coordinate", (· = coordinateJson coordinate))]
  | mouseMove coordinate => [("coordinate", (· = coordinateJson coordinate))]
  | type text => [("text", (· = .str text))]
  | key text => [("text", (· = .str text))]
  | scroll coordinate direction amount =>
      [("coordinate", (· = coordinateJson coordinate)), ("scroll_direction", direction.Spelled),
        ("scroll_amount", (· = .int amount.toNat))]
  | cursorPosition => []
  | wait duration => [("duration", (fun v => v.toFloat = some duration))]

/-- What stands beside the tag. -/
def Beside (beside : Json) (action : ComputerAction) : Prop :=
  ∃ vs, Json.Holds (action.spelled.map Prod.fst) beside vs ∧
    List.Forall₂ (fun field v => field.2 v) action.spelled vs

end ComputerAction

open ComputerAction

/-! ## The shapes of the variants -/

section Readers

variable {action : ComputerAction} {beside : Json}

theorem length_of_holds {names : List String} {vs : List Json} (h : Json.Holds names beside vs) :
    vs.length = names.length := by
  cases h with
  | named h => exact h.length_eq.symm
  | placed h => exact h

end Readers

/-! ## Every variant -/

section Variants

variable {action : ComputerAction} {beside : Json}

end Variants

/-! ## Round trips -/

namespace ComputerAction

/-- An action without a floating-point number. -/
def Whole : ComputerAction → Prop
  | wait _ => False
  | _ => True

end ComputerAction

namespace Wire

section

variable {serde : SerdeJson} (hserde : serde.Lawful)

include hserde

end

end Wire

end Bolide.Server
