/-
Bolide.Lib.Fields — what a struct is read from (`serde`'s derived readers).

A struct is read from an object, by the names of its fields, or from an
array, by their places. In an object the order of the fields does not matter
and neither does what else is there, but a field must not be there twice
(`Once`). An enum with a tag inside is its tag, and a struct or nothing beside
it.

Translation notes. Why a document is refused is left out: it goes into one
text, which is `serde`'s own.
-/
import Bolide.Lib.Json

namespace Lib

namespace Json

/-! ## Scalars -/

def toBool : Json → Option Bool
  | .bool b => some b
  | _ => none

def toStr : Json → Option String
  | .str s => some s
  | _ => none

/-- An integer of a range. -/
def toRange (low high : Int) : Json → Option Int
  | .int n => if low ≤ n ∧ n ≤ high then some n else none
  | _ => none

def toInt32 (v : Json) : Option Int32 := (v.toRange (-2 ^ 31) (2 ^ 31 - 1)).map Int32.ofInt

def toUInt16 (v : Json) : Option UInt16 := (v.toRange 0 (2 ^ 16 - 1)).map (fun n => UInt16.ofNat n.toNat)

def toUInt32 (v : Json) : Option UInt32 := (v.toRange 0 (2 ^ 32 - 1)).map (fun n => UInt32.ofNat n.toNat)

/-- A number. -/
def toFloat : Json → Option Float
  | .int n => some (Float.ofInt n)
  | .float x => some x
  | _ => none

/-- `[x, y]`. -/
def toPair : Json → Option (Int32 × Int32)
  | .arr [x, y] => do return (← x.toInt32, ← y.toInt32)
  | _ => none

/-- The name of a variant that holds nothing. What has been kept back to find
a tag may hold an empty object too. -/
def toVariant (buffered : Bool) : Json → Option String
  | .str s => some s
  | .obj [(s, .null)] => some s
  | .obj [(s, .obj [])] => if buffered = true then some s else none
  | _ => none

/-! ## Fields -/

/-- The values of a field. -/
def values (fields : List (String × Json)) (name : String) : List Json :=
  (fields.filter (fun field => field.1 = name)).map Prod.snd

/-- The value of a field that has to be there. -/
def once (fields : List (String × Json)) (name : String) : Option Json :=
  match values fields name with
  | [v] => some v
  | _ => none

/-- The value of a field that may be left out. -/
def atMostOnce (fields : List (String × Json)) (name : String) : Option (Option Json) :=
  match values fields name with
  | [] => some none
  | [v] => some (some v)
  | _ => none

/-- The fields of a struct, all of which have to be there. -/
def required (names : List String) : Json → Option (List Json)
  | .obj fields => names.mapM (once fields)
  | .arr items => if items.length = names.length then some items else none
  | _ => none

/-- The fields of a struct, some of which have a default. -/
def withDefaults (names : List String) : Json → Option (List (Option Json))
  | .obj fields => names.mapM (atMostOnce fields)
  | .arr items =>
      if items.length ≤ names.length then
        some (items.map some ++ List.replicate (names.length - items.length) none)
      else none
  | _ => none

/-- An `Option`, where there is one: `null` is `None`. -/
def toNullable {α : Type} (toValue : Json → Option α) : Option Json → Option (Option α)
  | none => some none
  | some .null => some none
  | some v => (toValue v).map some

/-- The tag of an enum, and what is beside it. -/
def tagged (tag : String) : Json → Option (String × Json)
  | .obj fields => do
      let name ← (← once fields tag).toStr
      return (name, .obj (fields.filter (fun field => field.1 ≠ tag)))
  | .arr (v :: items) => do return (← v.toStr, .arr items)
  | _ => none

/-- What is beside the tag of a variant that holds nothing. -/
def isUnit : Json → Bool
  | .obj _ => true
  | .arr [] => true
  | _ => false

/-! ## Once -/

/-- The field is there once, with this value. -/
def Once (fields : List (String × Json)) (name : String) (v : Json) : Prop :=
  values fields name = [v]

/-- What is there once is all there is of it. -/
theorem Once.unique {fields : List (String × Json)} {name : String} {v w : Json}
    (hv : Once fields name v) (hw : Once fields name w) : v = w := by
  have h : [v] = [w] := hv.symm.trans hw
  simpa using h

/-- The order of the fields does not matter. -/
theorem Once.perm {fields fields' : List (String × Json)} (h : fields.Perm fields') {name : String}
    {v : Json} (hv : Once fields name v) : Once fields' name v := by
  have hperm := (h.filter (fun field => field.1 = name)).map Prod.snd
  unfold Once values at hv ⊢
  rw [hv] at hperm
  exact (List.singleton_perm.mp hperm).symm

/-- Neither do fields of other names. -/
theorem once_append {fields more : List (String × Json)} {name : String}
    (h : ∀ field ∈ more, field.1 ≠ name) (v : Json) :
    Once (fields ++ more) name v ↔ Once fields name v := by
  have hnone : more.filter (fun field => field.1 = name) = [] := by
    simp only [List.filter_eq_nil_iff, decide_eq_true_eq]
    exact h
  unfold Once values
  rw [List.filter_append, hnone, List.append_nil]

/-! ## What is read -/

/-- The fields of a document, in the order of their names. -/
inductive Holds (names : List String) : Json → List Json → Prop
  | named {fields : List (String × Json)} {vs : List Json} :
      List.Forall₂ (Once fields) names vs → Holds names (.obj fields) vs
  | placed {items : List Json} : items.length = names.length → Holds names (.arr items) items

theorem toBool_eq_some {v : Json} {b : Bool} : v.toBool = some b ↔ v = .bool b := by
  cases v <;> simp [toBool]

end Json

end Lib
