/-
Bolide.Server.DragTheorems — the drag walk is a straight line.

On each axis the held moves are the quotients of `Bolide.Lib.Round`: within
half a pixel of the line, between the ends, never going back, and at the end
in the last step. `along` is computed in `i64` in the source; that none of it
overflows is said by `along64`, which checks every value it computes.
-/
import Bolide.Lib.Round
import Bolide.Server.Actions

namespace Bolide.Server

open Lib Bolide.Rfb

/-! ## One axis -/

/-- A value that fits an `i64`. -/
def i64 (v : Int) : Option Int := if -2 ^ 63 ≤ v ∧ v < 2 ^ 63 then some v else none

/-- `along`, with every value it computes checked, and the cast. -/
def along64 (start stop : UInt16) (i n : Int) : Option UInt16 := do
  let span ← i64 (stop.toNat - start.toNat)
  let offset ← i64 (span * i)
  let doubled ← i64 (2 * offset)
  let half ← i64 (offset.sign * n)
  let dividend ← i64 (doubled + half)
  let divisor ← i64 (2 * n)
  let rounded ← i64 (dividend.tdiv divisor)
  let reached ← i64 (start.toNat + rounded)
  if 0 ≤ reached ∧ reached < 2 ^ 16 then some (UInt16.ofInt reached) else none

/-- How far the `i`-th point is from the start. -/
def offsetAt (start stop : UInt16) (i n : Int) : Int :=
  roundDiv (((stop.toNat : Int) - start.toNat) * i) n

section Axis

variable (start stop : UInt16) {i n : Int}

/-- A step is between no offset and the whole. -/
theorem offsetAt_between (hn : 0 < n) (hi : 0 ≤ i) (hin : i ≤ n) :
    (start ≤ stop → 0 ≤ offsetAt start stop i n ∧
      offsetAt start stop i n ≤ (stop.toNat : Int) - start.toNat) ∧
    (stop ≤ start → (stop.toNat : Int) - start.toNat ≤ offsetAt start stop i n ∧
      offsetAt start stop i n ≤ 0) := by
  have hzero : roundDiv 0 n = 0 := by simp [roundDiv]
  have hwhole := roundDiv_mul hn ((stop.toNat : Int) - start.toNat)
  refine ⟨fun h => ?_, fun h => ?_⟩
  · have hspan : (0 : Int) ≤ (stop.toNat : Int) - start.toNat := by
      rw [UInt16.le_iff_toNat_le] at h
      omega
    have hlow := roundDiv_mono hn (Int.mul_nonneg hspan hi)
    have hhigh := roundDiv_mono hn (Int.mul_le_mul_of_nonneg_left hin hspan)
    rw [hzero] at hlow
    rw [hwhole] at hhigh
    exact ⟨hlow, hhigh⟩
  · have hspan : (stop.toNat : Int) - start.toNat ≤ 0 := by
      rw [UInt16.le_iff_toNat_le] at h
      omega
    have hlow := roundDiv_mono hn (Int.mul_le_mul_of_nonpos_left hspan hin)
    have hhigh := roundDiv_mono hn (Int.mul_nonpos_of_nonpos_of_nonneg hspan hi)
    rw [hwhole] at hlow
    rw [hzero] at hhigh
    exact ⟨hlow, hhigh⟩

/-- The point reached is on the axis. -/
theorem reached_bounds (hn : 0 < n) (hi : 0 ≤ i) (hin : i ≤ n) :
    0 ≤ (start.toNat : Int) + offsetAt start stop i n ∧
      (start.toNat : Int) + offsetAt start stop i n < 2 ^ 16 := by
  obtain ⟨hup, hdown⟩ := offsetAt_between start stop hn hi hin
  have hstart := start.toNat_lt
  have hstop := stop.toNat_lt
  by_cases h : start ≤ stop
  · have := hup h
    omega
  · have := hdown (UInt16.le_of_lt (UInt16.not_le.mp h))
    omega

/-- A cast that loses nothing. -/
theorem toNat_ofInt {v : Int} (hlow : 0 ≤ v) (hhigh : v < 2 ^ 16) :
    ((UInt16.ofInt v).toNat : Int) = v := by
  rw [UInt16.ofInt, UInt16.toNat_ofNat']
  omega

/-- The cast of `along` loses nothing. -/
theorem toNat_along (hn : 0 < n) (hi : 0 ≤ i) (hin : i ≤ n) :
    ((along start stop i n).toNat : Int) = start.toNat + offsetAt start stop i n := by
  obtain ⟨hlow, hhigh⟩ := reached_bounds start stop hn hi hin
  exact toNat_ofInt hlow hhigh

/-- Nothing overflows on the way. -/
theorem along64_eq (hn : 0 < n) (hi : 0 ≤ i) (hin : i ≤ n) (hmax : n < 2 ^ 16) :
    along64 start stop i n = some (along start stop i n) := by
  have hstart := start.toNat_lt
  have hstop := stop.toNat_lt
  obtain ⟨hlow, hhigh⟩ := reached_bounds start stop hn hi hin
  have hspan : -2 ^ 16 ≤ (stop.toNat : Int) - start.toNat ∧
      (stop.toNat : Int) - start.toNat ≤ 2 ^ 16 := by omega
  have hoffset : -2 ^ 32 ≤ ((stop.toNat : Int) - start.toNat) * i ∧
      ((stop.toNat : Int) - start.toNat) * i ≤ 2 ^ 32 := by
    constructor <;> nlinarith
  have hsign : -n ≤ (((stop.toNat : Int) - start.toNat) * i).sign * n ∧
      (((stop.toNat : Int) - start.toNat) * i).sign * n ≤ n := by
    rcases Int.sign_trichotomy (((stop.toNat : Int) - start.toNat) * i) with h | h | h <;>
      rw [h] <;> omega
  have hfits : ∀ v : Int, -2 ^ 63 ≤ v → v < 2 ^ 63 → i64 v = some v := fun v h h' =>
    if_pos ⟨h, h'⟩
  have hrounded : (2 * (((stop.toNat : Int) - start.toNat) * i) +
      (((stop.toNat : Int) - start.toNat) * i).sign * n).tdiv (2 * n) =
        offsetAt start stop i n := rfl
  unfold along64
  generalize hspan' : (stop.toNat : Int) - start.toNat = span at *
  generalize hoffset' : span * i = offset at *
  have hreached : (start.toNat : Int) + offsetAt start stop i n =
      start.toNat + (2 * offset + offset.sign * n).tdiv (2 * n) := by rw [hrounded]
  simp only [hfits span (by omega) (by omega), Option.bind_eq_bind, Option.bind_some, hoffset',
    hfits offset (by omega) (by omega), hfits (2 * offset) (by omega) (by omega),
    hfits (offset.sign * n) (by omega) (by omega),
    hfits (2 * offset + offset.sign * n) (by omega) (by omega),
    hfits (2 * n) (by omega) (by omega), hrounded,
    hfits (offsetAt start stop i n) (by omega) (by omega),
    hfits (start.toNat + offsetAt start stop i n) (by omega) (by omega),
    if_pos (And.intro hlow hhigh)]
  rfl

/-- The other way round, the offsets are mirrored. -/
theorem along_mirrored {start stop start' stop' : UInt16}
    (hmirror : (stop'.toNat : Int) - start'.toNat = -((stop.toNat : Int) - start.toNat))
    (hn : 0 < n) (hi : 0 ≤ i) (hin : i ≤ n) :
    ((along start' stop' i n).toNat : Int) - start'.toNat =
      -(((along start stop i n).toNat : Int) - start.toNat) := by
  rw [toNat_along start' stop' hn hi hin, toNat_along start stop hn hi hin]
  have hoffset : offsetAt start' stop' i n = -offsetAt start stop i n := by
    rw [offsetAt, hmirror, Int.neg_mul, roundDiv_neg, offsetAt]
  omega

end Axis

/-- The points of one axis, one for each held move, on the line from `start`
to `stop`. -/
structure Straight (start stop : UInt16) (points : List UInt16) : Prop where
  near : ∀ i (h : i < points.length),
    |2 * (points.length : Int) * ((points[i].toNat : Int) - start.toNat) -
      2 * (((stop.toNat : Int) - start.toNat) * (i + 1))| ≤ points.length
  between : ∀ i (_ : i < points.length),
    start ≤ points[i] ∧ points[i] ≤ stop ∨ stop ≤ points[i] ∧ points[i] ≤ start
  onward : ∀ i j (_ : i < j) (_ : j < points.length),
    (start ≤ stop → points[i] ≤ points[j]) ∧ (stop ≤ start → points[j] ≤ points[i])
  arrives : points.getLast? = some stop

/-- The points of one axis, as `along` computes them. -/
def walk (start stop : UInt16) (n : Nat) : List UInt16 :=
  (List.range' 1 n).map (fun i : Nat => along start stop i n)

theorem length_walk (start stop : UInt16) (n : Nat) : (walk start stop n).length = n := by
  simp [walk]

theorem getElem_walk (start stop : UInt16) (n : Nat) {i : Nat} (h : i < (walk start stop n).length) :
    (walk start stop n)[i] = along start stop ((i : Int) + 1) n := by
  simp only [walk, List.getElem_map, List.getElem_range', Nat.one_mul]
  congr 1
  omega

/-- The walk along an axis is straight. -/
theorem walk_straight (start stop : UInt16) {n : Nat} (hn : 0 < n) :
    Straight start stop (walk start stop n) := by
  have hn' : (0 : Int) < n := by omega
  have hlength := length_walk start stop n
  have hpoint : ∀ i (h : i < (walk start stop n).length),
      ((walk start stop n)[i].toNat : Int) = start.toNat + offsetAt start stop (i + 1) n := by
    intro i h
    rw [getElem_walk, toNat_along start stop hn' (by omega) (by omega)]
  refine ⟨fun i h => ?_, fun i h => ?_, fun i j hij hj => ?_, ?_⟩
  · rw [hpoint i h, hlength]
    obtain ⟨hlow, hhigh⟩ := roundDiv_near hn' (((stop.toNat : Int) - start.toNat) * (i + 1))
    rw [add_sub_cancel_left, abs_le]
    exact ⟨hlow, hhigh⟩
  · have hat := hpoint i h
    obtain ⟨hup, hdown⟩ := offsetAt_between start stop (i := (i : Int) + 1) hn' (by omega) (by omega)
    generalize (walk start stop n)[i] = point at hat ⊢
    by_cases hle : start ≤ stop
    · have hoffset := hup hle
      left
      rw [UInt16.le_iff_toNat_le, UInt16.le_iff_toNat_le]
      omega
    · have hoffset := hdown (UInt16.le_of_lt (UInt16.not_le.mp hle))
      right
      rw [UInt16.le_iff_toNat_le, UInt16.le_iff_toNat_le]
      omega
  · have hati := hpoint i (by omega)
    have hatj := hpoint j hj
    rw [UInt16.le_iff_toNat_le, UInt16.le_iff_toNat_le, UInt16.le_iff_toNat_le,
      UInt16.le_iff_toNat_le]
    have hij' : (i : Int) + 1 ≤ (j : Int) + 1 := by omega
    refine ⟨fun hle => ?_, fun hle => ?_⟩
    · have hmono := roundDiv_mono hn' (Int.mul_le_mul_of_nonneg_left hij'
        (show 0 ≤ (stop.toNat : Int) - start.toNat by omega))
      unfold offsetAt at hati hatj
      omega
    · have hmono := roundDiv_mono hn' (Int.mul_le_mul_of_nonpos_left
        (show (stop.toNat : Int) - start.toNat ≤ 0 by omega) hij')
      unfold offsetAt at hati hatj
      omega
  · have hlast : (walk start stop n).getLast? = (walk start stop n)[n - 1]? := by
      rw [List.getLast?_eq_getElem?, hlength]
    have hat := hpoint (n - 1) (by omega)
    have hwhole : offsetAt start stop (((n - 1 : Nat) : Int) + 1) n =
        (stop.toNat : Int) - start.toNat := by
      rw [show ((n - 1 : Nat) : Int) + 1 = n by omega]
      exact roundDiv_mul hn' _
    rw [hlast, List.getElem?_eq_getElem (by omega)]
    refine congrArg some (UInt16.toNat_inj.mp ?_)
    omega

/-! ## The whole drag -/

/-- A separator before every block but the first. -/
theorem intercalate_cons_flatMap {α : Type} (sep block : List α) (blocks : List (List α)) :
    block ++ blocks.flatMap (fun b => sep ++ b) = sep.intercalate (block :: blocks) := by
  induction blocks generalizing block with
  | nil => simp
  | cons b blocks ih =>
      rw [List.flatMap_cons, List.intercalate_cons_of_ne_nil (List.cons_ne_nil _ _), ← ih]
      simp

/-- The held move to a point. -/
def held (point : UInt16 × UInt16) : RfbOp := .pointer point.1 point.2 buttonLeft

/-- The held moves, with a pause between them. -/
theorem flatMap_heldMove (start stop : UInt16 × UInt16) (pacing : DragPacing) {n : Nat}
    (hn : 0 < n) :
    (List.range' 1 n).flatMap (heldMove start stop pacing n) =
      (pause pacing.stepMs).intercalate
        (((walk start.1 stop.1 n).zip (walk start.2 stop.2 n)).map (fun p => [held p])) := by
  obtain ⟨m, rfl⟩ : ∃ m, n = m + 1 := ⟨n - 1, by omega⟩
  have hzip : (walk start.1 stop.1 (m + 1)).zip (walk start.2 stop.2 (m + 1)) =
      (List.range' 1 (m + 1)).map (fun i : Nat =>
        (along start.1 stop.1 i ((m + 1 : Nat) : Int),
          along start.2 stop.2 i ((m + 1 : Nat) : Int))) := by
    rw [walk, walk, List.zip_map']
  rw [hzip, List.map_map, List.range'_succ, List.map_cons, List.flatMap_cons,
    ← intercalate_cons_flatMap, List.flatMap_map]
  congr 1
  refine List.flatMap_congr (fun i hi => ?_)
  have hlate : 1 < i := by
    have := List.mem_range'_1.mp hi
    omega
  rw [heldMove, if_pos hlate]
  rfl

/-- There is always one held move. -/
theorem toNat_steps (pacing : DragPacing) :
    (max pacing.steps 1).toNat = max 1 pacing.steps.toNat := by
  show (if pacing.steps ≤ 1 then (1 : UInt16) else pacing.steps).toNat = _
  have hone : (1 : UInt16).toNat = 1 := rfl
  split
  · next h =>
      rw [UInt16.le_iff_toNat_le] at h
      omega
  · next h =>
      rw [UInt16.le_iff_toNat_le] at h
      omega

/-- The points of the held moves. -/
def dragPoints (start stop : UInt16 × UInt16) (pacing : DragPacing) : List (UInt16 × UInt16) :=
  (walk start.1 stop.1 (max 1 pacing.steps.toNat)).zip
    (walk start.2 stop.2 (max 1 pacing.steps.toNat))

section Points

variable (start stop : UInt16 × UInt16) (pacing : DragPacing)

theorem length_dragPoints : (dragPoints start stop pacing).length = max 1 pacing.steps.toNat := by
  rw [dragPoints, List.length_zip, length_walk, length_walk, Nat.min_self]

theorem map_fst_dragPoints : (dragPoints start stop pacing).map Prod.fst =
    walk start.1 stop.1 (max 1 pacing.steps.toNat) :=
  List.map_fst_zip (by rw [length_walk, length_walk])

theorem map_snd_dragPoints : (dragPoints start stop pacing).map Prod.snd =
    walk start.2 stop.2 (max 1 pacing.steps.toNat) :=
  List.map_snd_zip (by rw [length_walk, length_walk])

/-- The points of a drag are straight on both axes. -/
theorem dragPoints_straight :
    Straight start.1 stop.1 ((dragPoints start stop pacing).map Prod.fst) ∧
      Straight start.2 stop.2 ((dragPoints start stop pacing).map Prod.snd) := by
  rw [map_fst_dragPoints, map_snd_dragPoints]
  exact ⟨walk_straight _ _ (by omega), walk_straight _ _ (by omega)⟩

theorem drag_eq : drag start stop pacing =
    [.pointer start.1 start.2 0, .pointer start.1 start.2 buttonLeft] ++ pause pacing.dwellMs ++
      (pause pacing.stepMs).intercalate ((dragPoints start stop pacing).map (fun p => [held p])) ++
      pause pacing.dwellMs ++ [.pointer stop.1 stop.2 0] := by
  simp only [drag, toNat_steps, dragPoints,
    flatMap_heldMove start stop pacing (show 0 < max 1 pacing.steps.toNat by omega)]

end Points

/-- **The drag walk is a faithful straight line.** After the press come as
many held moves as there are steps, one at the least, with the pauses where
they belong and none that is zero; on each axis they are straight; and none
of what is computed for them overflows. -/
theorem drag_straight (start stop : UInt16 × UInt16) (pacing : DragPacing) :
    (∃ points : List (UInt16 × UInt16), points.length = max 1 pacing.steps.toNat ∧
      drag start stop pacing =
        [.pointer start.1 start.2 0, .pointer start.1 start.2 buttonLeft] ++
          pause pacing.dwellMs ++
          (pause pacing.stepMs).intercalate (points.map (fun p => [held p])) ++
          pause pacing.dwellMs ++ [.pointer stop.1 stop.2 0] ∧
      Straight start.1 stop.1 (points.map Prod.fst) ∧
      Straight start.2 stop.2 (points.map Prod.snd)) ∧
    (∀ (a b : UInt16) (i : Nat), 1 ≤ i → i ≤ max 1 pacing.steps.toNat →
      along64 a b i (max 1 pacing.steps.toNat : Nat) =
          some (along a b i (max 1 pacing.steps.toNat : Nat)) ∧
        ∀ a' b' : UInt16, (b'.toNat : Int) - a'.toNat = -((b.toNat : Int) - a.toNat) →
          ((along a' b' i (max 1 pacing.steps.toNat : Nat)).toNat : Int) - a'.toNat =
            -(((along a b i (max 1 pacing.steps.toNat : Nat)).toNat : Int) - a.toNat)) := by
  have hmax := pacing.steps.toNat_lt
  obtain ⟨hx, hy⟩ := dragPoints_straight start stop pacing
  refine ⟨⟨dragPoints start stop pacing, length_dragPoints start stop pacing,
    drag_eq start stop pacing, hx, hy⟩, fun a b i hi hin => ⟨?_, fun a' b' hmirror => ?_⟩⟩
  · exact along64_eq a b (by omega) (by omega) (by omega) (by omega)
  · have hn' : (0 : Int) < (max 1 pacing.steps.toNat : Nat) := by omega
    have hi' : (0 : Int) ≤ i := by omega
    exact along_mirrored hmirror hn' hi' (by omega)

end Bolide.Server
