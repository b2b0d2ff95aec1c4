/-
Bolide.Server.PlanTheorems — every plan is well formed.

A plan is one of a few shapes (`Shape`): nothing, clicks at one point, a
single move, a drag, typed characters, a chord, a wait. What a hand may do
with the pointer is `Gesture`, what it may do with the keys is balance in the
sense of `Bolide.Lib.Balance`; both are shown shape by shape.
-/
import Bolide.Lib.Balance
import Bolide.Server.DragTheorems

namespace Bolide.Server

open Lib Bolide.Rfb

/-! ## What an action asks for -/

/-- The coordinates of an action, the first one first. -/
def ComputerAction.coordinates : ComputerAction → List Coordinate
  | .leftClick coordinate => [coordinate]
  | .rightClick coordinate => [coordinate]
  | .middleClick coordinate => [coordinate]
  | .doubleClick coordinate => [coordinate]
  | .tripleClick coordinate => [coordinate]
  | .leftClickDrag startCoordinate coordinate => [startCoordinate, coordinate]
  | .mouseMove coordinate => [coordinate]
  | .scroll coordinate _ _ => [coordinate]
  | _ => []

/-- The button a click or a scroll presses, and how often. -/
def ComputerAction.presses? : ComputerAction → Option (UInt8 × Nat)
  | .leftClick _ => some (buttonLeft, 1)
  | .rightClick _ => some (buttonRight, 1)
  | .middleClick _ => some (buttonMiddle, 1)
  | .doubleClick _ => some (buttonLeft, 2)
  | .tripleClick _ => some (buttonLeft, 3)
  | .scroll _ scrollDirection scrollAmount => some (scrollDirection.button, scrollAmount.toNat)
  | _ => none

/-- The coordinate lies on the screen. -/
def PlanContext.Inside (ctx : PlanContext) (coordinate : Coordinate) : Prop :=
  (0 ≤ coordinate.1.toInt ∧ coordinate.1.toInt < ctx.width.toNat) ∧
    0 ≤ coordinate.2.toInt ∧ coordinate.2.toInt < ctx.height.toNat

/-- The pixel at a coordinate. -/
def StandsAt (pixel : UInt16 × UInt16) (coordinate : Coordinate) : Prop :=
  (pixel.1.toNat : Int) = coordinate.1.toInt ∧ (pixel.2.toNat : Int) = coordinate.2.toInt

/-- All coordinates are on the screen, and a chord is one. -/
def Plannable (action : ComputerAction) (ctx : PlanContext) : Prop :=
  (∀ coordinate ∈ action.coordinates, ctx.Inside coordinate) ∧
    ∀ text, action = .key text → ∃ syms, parseChord text = .ok syms

/-! ## What a hand may do -/

/-- Where the pointer is put, and the buttons held there. -/
def Input.pointer? : Input → Option ((UInt16 × UInt16) × UInt8)
  | .pointer x y buttons => some ((x, y), buttons)
  | .key _ _ => none

/-- The PointerEvents of a plan. -/
def pointers (ops : List RfbOp) : List ((UInt16 × UInt16) × UInt8) :=
  (inputs ops).filterMap Input.pointer?

/-- The button masks of a plan, one for each PointerEvent. -/
def masks (ops : List RfbOp) : List UInt8 := (pointers ops).map Prod.snd

/-- Pointer events that stay on the screen, begin and end without a button,
hold one button at the most, and press and release where the pointer is. -/
structure Gesture (width height : UInt16) (ps : List ((UInt16 × UInt16) × UInt8)) : Prop where
  inside : ∀ p ∈ ps, p.1.1 < width ∧ p.1.2 < height
  begins : ∀ p ∈ ps.head?, p.2 = 0
  inPlace : ps.IsChain (fun p q => q.2 ≠ p.2 → q.1 = p.1)
  oneButton : ∀ p ∈ ps, p.2 = 0 ∨ ∃ i < 8, p.2.toNat = 2 ^ i
  ends : ∀ p ∈ ps.getLast?, p.2 = 0

/-- Keys that go up no more often than down, and as often in the whole. -/
def KeysBalanced (ops : List RfbOp) : Prop :=
  Balanced (fun keysym => RfbOp.key keysym true) (fun keysym => RfbOp.key keysym false) ops

/-- The key events of one character. -/
def tap (keysym : UInt32) : List RfbOp := [.key keysym true, .key keysym false]

/-- What a plan is, for the action it is a plan of. -/
structure WellFormed (action : ComputerAction) (ctx : PlanContext) (ops : List RfbOp) : Prop where
  gesture : Gesture ctx.width ctx.height (pointers ops)
  aimed : ∀ p ∈ (pointers ops).head?, ∃ coordinate ∈ action.coordinates.head?,
    StandsAt p.1 coordinate
  keys : KeysBalanced ops
  presses : ∀ button count, action.presses? = some (button, count) →
    if count = 0 then ops = []
    else masks ops = 0 :: (List.replicate count [button, 0]).flatten ∧
      ops.length = 2 * count + 1
  released : ∀ startCoordinate coordinate, action = .leftClickDrag startCoordinate coordinate →
    ∃ moves, masks ops = 0 :: buttonLeft :: List.replicate moves buttonLeft ++ [0] ∧
      ∃ x y, StandsAt (x, y) coordinate ∧ ops.getLast? = some (.pointer x y 0)
  moved : ∀ coordinate, action = .mouseMove coordinate → masks ops = [0] ∧ ops.length = 1
  typed : ∀ text, action = .type text → ∃ syms,
    List.Forall₂ (fun c keysym => keysymForTyped c = .ok keysym) text.toList syms ∧
      ops = syms.flatMap tap
  chord : ∀ text, action = .key text → ∃ syms, parseChord text = .ok syms ∧
    ops = syms.map (fun keysym => .key keysym true) ++
      syms.reverse.map (fun keysym => .key keysym false)
  silent : action = .screenshot ∨ action = .cursorPosition → ops = []

/-! ## The shapes of a plan -/

/-- The plans there are. -/
inductive Shape (ctx : PlanContext) : ComputerAction → List RfbOp → Prop where
  | silent {action : ComputerAction} (h : action = .screenshot ∨ action = .cursorPosition) :
      Shape ctx action []
  | clicks {action : ComputerAction} {coordinate : Coordinate} {button : UInt8} {count x y}
      (hcoordinates : action.coordinates = [coordinate])
      (hpresses : action.presses? = some (button, count)) (hbutton : ∃ i < 8, button.toNat = 2 ^ i)
      (hcount : 0 < count) (hcheck : ctx.check coordinate = .ok (x, y)) :
      Shape ctx action (clicksAt x y button count)
  | stays {coordinate : Coordinate} {scrollDirection : ScrollDirection} {point}
      (hcheck : ctx.check coordinate = .ok point) :
      Shape ctx (.scroll coordinate scrollDirection 0) []
  | drag {startCoordinate coordinate : Coordinate} {start stop}
      (hstart : ctx.check startCoordinate = .ok start) (hstop : ctx.check coordinate = .ok stop) :
      Shape ctx (.leftClickDrag startCoordinate coordinate) (drag start stop ctx.drag)
  | move {coordinate : Coordinate} {x y} (hcheck : ctx.check coordinate = .ok (x, y)) :
      Shape ctx (.mouseMove coordinate) [.pointer x y 0]
  | typed {text : String} {syms : List UInt32}
      (hsyms : List.Forall₂ (fun c keysym => keysymForTyped c = .ok keysym) text.toList syms) :
      Shape ctx (.type text) (syms.flatMap tap)
  | chord {text : String} {syms : List UInt32} (hsyms : parseChord text = .ok syms) :
      Shape ctx (.key text) (chord syms)
  | wait (duration : Float) : Shape ctx (.wait duration) [.sleep (waitMs duration)]

section Plan

variable {action : ComputerAction} {ctx : PlanContext} {ops : List RfbOp}

/-! ## Coordinates -/

/-- A checked coordinate is on the screen, and the point is its pixel. -/
theorem check_ok {coordinate : Coordinate} {point : UInt16 × UInt16}
    (h : ctx.check coordinate = .ok point) : ctx.Inside coordinate ∧ StandsAt point coordinate := by
  obtain ⟨x, y⟩ := coordinate
  have hwidth := ctx.width.toNat_lt
  have hheight := ctx.height.toNat_lt
  simp only [PlanContext.check] at h
  split at h
  · cases h
  · next hin =>
      injection h with hpoint
      subst hpoint
      have hx : 0 ≤ x.toInt ∧ x.toInt < ctx.width.toNat := by omega
      have hy : 0 ≤ y.toInt ∧ y.toInt < ctx.height.toNat := by omega
      exact ⟨⟨hx, hy⟩, toNat_ofInt hx.1 (by omega), toNat_ofInt hy.1 (by omega)⟩

/-- A coordinate passes its check exactly when it is on the screen. -/
theorem check_ok_iff (coordinate : Coordinate) :
    (∃ point, ctx.check coordinate = .ok point) ↔ ctx.Inside coordinate := by
  constructor
  · rintro ⟨point, h⟩
    exact (check_ok h).1
  · rintro ⟨⟨hx, hwidth⟩, hy, hheight⟩
    refine ⟨(UInt16.ofInt coordinate.1.toInt, UInt16.ofInt coordinate.2.toInt), ?_⟩
    have hin : ¬ (coordinate.1.toInt < 0 ∨ coordinate.2.toInt < 0 ∨
        ctx.width.toNat ≤ coordinate.1.toInt ∨ ctx.height.toNat ≤ coordinate.2.toInt) := by
      omega
    exact if_neg hin

/-- The pixel of a checked coordinate is on the screen. -/
theorem check_inside {coordinate : Coordinate} {point : UInt16 × UInt16}
    (h : ctx.check coordinate = .ok point) : point.1 < ctx.width ∧ point.2 < ctx.height := by
  obtain ⟨⟨⟨-, hwidth⟩, -, hheight⟩, hx, hy⟩ := check_ok h
  rw [UInt16.lt_iff_toNat_lt, UInt16.lt_iff_toNat_lt]
  omega

/-! ## Typed characters -/

/-- A character is typed with its keysym, the named keys included. -/
theorem keysymForTyped_eq (c : Char) : keysymForTyped c = .ok (keysymForChar c) := by
  have hreturn : keysymFor "Return" = some 0xff0d := by decide +kernel
  have htab : keysymFor "Tab" = some 0xff09 := by decide +kernel
  unfold keysymForTyped
  split
  · next hc => simp [hreturn, keysymForChar, hc]
  · next hc =>
      split
      · next hc' => simp [htab, keysymForChar, hc']
      · rfl

/-- A text is typed character by character. -/
theorem typed_eq (cs : List Char) : typed cs = .ok ((cs.map keysymForChar).flatMap tap) := by
  induction cs with
  | nil => rfl
  | cons c cs ih =>
      simp only [typed, keysymForTyped_eq, ih, orUnknown]
      rfl

theorem typed_ok (cs : List Char) : ∃ syms,
    List.Forall₂ (fun c keysym => keysymForTyped c = .ok keysym) cs syms ∧
      typed cs = .ok (syms.flatMap tap) := by
  refine ⟨cs.map keysymForChar, ?_, typed_eq cs⟩
  rw [List.forall₂_map_right_iff]
  exact List.forall₂_same.mpr fun c _ => keysymForTyped_eq c

/-! ## From the action to its shape -/

theorem clickAt_ok {coordinate : Coordinate} {button : UInt8} {count : Nat} :
    clickAt ctx coordinate button count = .ok ops ↔
      ∃ x y, ctx.check coordinate = .ok (x, y) ∧ ops = clicksAt x y button count := by
  unfold clickAt
  cases hcheck : ctx.check coordinate with
  | error e => simp [bind, Except.bind]
  | ok point =>
      obtain ⟨x, y⟩ := point
      simp [bind, Except.bind, pure, Except.pure, eq_comm]

/-- A plan has a shape. -/
theorem shape_of_plan (h : plan action ctx = .ok ops) : Shape ctx action ops := by
  cases action with
  | screenshot => cases h; exact .silent (.inl rfl)
  | cursorPosition => cases h; exact .silent (.inr rfl)
  | leftClick coordinate =>
      obtain ⟨x, y, hcheck, rfl⟩ := clickAt_ok.mp h
      exact .clicks rfl rfl ⟨0, by decide⟩ (by decide) hcheck
  | rightClick coordinate =>
      obtain ⟨x, y, hcheck, rfl⟩ := clickAt_ok.mp h
      exact .clicks rfl rfl ⟨2, by decide⟩ (by decide) hcheck
  | middleClick coordinate =>
      obtain ⟨x, y, hcheck, rfl⟩ := clickAt_ok.mp h
      exact .clicks rfl rfl ⟨1, by decide⟩ (by decide) hcheck
  | doubleClick coordinate =>
      obtain ⟨x, y, hcheck, rfl⟩ := clickAt_ok.mp h
      exact .clicks rfl rfl ⟨0, by decide⟩ (by decide) hcheck
  | tripleClick coordinate =>
      obtain ⟨x, y, hcheck, rfl⟩ := clickAt_ok.mp h
      exact .clicks rfl rfl ⟨0, by decide⟩ (by decide) hcheck
  | leftClickDrag startCoordinate coordinate =>
      simp only [plan] at h
      cases hstart : ctx.check startCoordinate with
      | error e => rw [hstart] at h; cases h
      | ok start =>
          cases hstop : ctx.check coordinate with
          | error e => rw [hstart, hstop] at h; cases h
          | ok stop =>
              rw [hstart, hstop] at h
              cases h
              exact .drag hstart hstop
  | mouseMove coordinate =>
      simp only [plan] at h
      cases hcheck : ctx.check coordinate with
      | error e => rw [hcheck] at h; cases h
      | ok point =>
          rw [hcheck] at h
          cases h
          exact .move hcheck
  | scroll coordinate scrollDirection scrollAmount =>
      simp only [plan] at h
      cases hcheck : ctx.check coordinate with
      | error e => rw [hcheck] at h; cases h
      | ok point =>
          by_cases hzero : scrollAmount = 0
          · subst hzero
            rw [hcheck] at h
            cases h
            exact .stays hcheck
          · have hpos : 0 < scrollAmount.toNat :=
              Nat.pos_of_ne_zero fun hnat => hzero (UInt32.toNat_inj.mp hnat)
            have hbutton : ∃ i < 8, scrollDirection.button.toNat = 2 ^ i := by
              cases scrollDirection
              exacts [⟨3, by decide⟩, ⟨4, by decide⟩]
            rw [hcheck] at h
            simp only [bind, Except.bind, if_neg hzero] at h
            cases h
            exact .clicks rfl rfl hbutton hpos hcheck
  | type text =>
      obtain ⟨syms, hsyms, htyped⟩ := typed_ok text.toList
      rw [plan, htyped] at h
      cases h
      exact .typed hsyms
  | key text =>
      simp only [plan] at h
      cases hsyms : parseChord text with
      | error e => rw [hsyms] at h; cases h
      | ok syms =>
          rw [hsyms] at h
          cases h
          exact .chord hsyms
  | wait duration => cases h; exact .wait duration

/-- What has a shape can be planned. -/
theorem Shape.plannable (h : Shape ctx action ops) : Plannable action ctx := by
  cases h with
  | silent h =>
      rcases h with rfl | rfl
      · exact ⟨fun _ hmem => absurd hmem List.not_mem_nil, nofun⟩
      · exact ⟨fun _ hmem => absurd hmem List.not_mem_nil, nofun⟩
  | clicks hcoordinates hpresses hbutton hcount hcheck =>
      constructor
      · rw [hcoordinates]
        intro coordinate hmem
        rw [List.mem_singleton.mp hmem]
        exact (check_ok hcheck).1
      · rintro text rfl
        cases hpresses
  | stays hcheck =>
      refine ⟨fun coordinate hmem => ?_, nofun⟩
      rw [List.mem_singleton.mp hmem]
      exact (check_ok hcheck).1
  | drag hstart hstop =>
      refine ⟨fun coordinate hmem => ?_, nofun⟩
      rcases List.mem_cons.mp hmem with rfl | hmem
      · exact (check_ok hstart).1
      · rw [List.mem_singleton.mp hmem]
        exact (check_ok hstop).1
  | move hcheck =>
      refine ⟨fun coordinate hmem => ?_, nofun⟩
      rw [List.mem_singleton.mp hmem]
      exact (check_ok hcheck).1
  | typed hsyms => exact ⟨fun _ hmem => absurd hmem List.not_mem_nil, nofun⟩
  | chord hsyms =>
      refine ⟨fun _ hmem => absurd hmem List.not_mem_nil, fun text htext => ?_⟩
      cases htext
      exact ⟨_, hsyms⟩
  | wait duration => exact ⟨fun _ hmem => absurd hmem List.not_mem_nil, nofun⟩

/-- A click at a coordinate on the screen is planned. -/
theorem clickAt_of_inside {coordinate : Coordinate} (h : ctx.Inside coordinate) (button : UInt8)
    (count : Nat) : ∃ ops, clickAt ctx coordinate button count = .ok ops := by
  obtain ⟨⟨x, y⟩, hcheck⟩ := (check_ok_iff coordinate).mpr h
  exact ⟨_, clickAt_ok.mpr ⟨x, y, hcheck, rfl⟩⟩

/-- What can be planned is. -/
theorem plan_of_plannable (h : Plannable action ctx) : ∃ ops, plan action ctx = .ok ops := by
  obtain ⟨hinside, hchord⟩ := h
  cases action with
  | screenshot => exact ⟨_, rfl⟩
  | cursorPosition => exact ⟨_, rfl⟩
  | leftClick coordinate => exact clickAt_of_inside (hinside _ (List.mem_singleton_self _)) _ _
  | rightClick coordinate => exact clickAt_of_inside (hinside _ (List.mem_singleton_self _)) _ _
  | middleClick coordinate => exact clickAt_of_inside (hinside _ (List.mem_singleton_self _)) _ _
  | doubleClick coordinate => exact clickAt_of_inside (hinside _ (List.mem_singleton_self _)) _ _
  | tripleClick coordinate => exact clickAt_of_inside (hinside _ (List.mem_singleton_self _)) _ _
  | leftClickDrag startCoordinate coordinate =>
      obtain ⟨start, hstart⟩ := (check_ok_iff _).mpr (hinside startCoordinate List.mem_cons_self)
      obtain ⟨stop, hstop⟩ := (check_ok_iff _).mpr
        (hinside coordinate (List.mem_cons_of_mem _ (List.mem_singleton_self _)))
      exact ⟨_, by rw [plan, hstart, hstop]; rfl⟩
  | mouseMove coordinate =>
      obtain ⟨point, hcheck⟩ := (check_ok_iff _).mpr (hinside coordinate (List.mem_singleton_self _))
      exact ⟨_, by rw [plan, hcheck]; rfl⟩
  | scroll coordinate scrollDirection scrollAmount =>
      obtain ⟨point, hcheck⟩ := (check_ok_iff _).mpr (hinside coordinate (List.mem_singleton_self _))
      rw [plan, hcheck]
      simp only [bind, Except.bind]
      split
      · exact ⟨_, rfl⟩
      · exact ⟨_, rfl⟩
  | type text =>
      obtain ⟨syms, -, htyped⟩ := typed_ok text.toList
      exact ⟨_, htyped⟩
  | key text =>
      obtain ⟨syms, hsyms⟩ := hchord text rfl
      exact ⟨_, by rw [plan, hsyms]; rfl⟩
  | wait duration => exact ⟨_, rfl⟩

/-! ## The keys of a shape -/

theorem pointer_balanced {ops : List RfbOp} (h : ∀ op ∈ ops, ∀ keysym down, op ≠ .key keysym down) :
    KeysBalanced ops :=
  balanced_of_none fun keysym =>
    ⟨fun hmem => h _ hmem keysym true rfl, fun hmem => h _ hmem keysym false rfl⟩

/-- A key held around what is balanced. -/
theorem KeysBalanced.surround (h : KeysBalanced ops) (keysym : UInt32) :
    KeysBalanced (.key keysym true :: ops ++ [.key keysym false]) :=
  Balanced.surround h (fun _ _ => by simp) (fun _ _ heq => by injection heq)
    (fun _ _ heq => by injection heq) keysym

theorem typed_balanced (syms : List UInt32) : KeysBalanced (syms.flatMap tap) := by
  induction syms with
  | nil => exact balanced_nil
  | cons keysym syms ih =>
      exact Balanced.append (KeysBalanced.surround balanced_nil keysym) ih

/-- The modifiers surround the key they modify. -/
theorem chord_balanced (syms : List UInt32) : KeysBalanced (chord syms) := by
  induction syms with
  | nil => exact balanced_nil
  | cons keysym syms ih =>
      have hchord : chord (keysym :: syms) = .key keysym true :: chord syms ++ [.key keysym false] := by
        simp [chord]
      rw [hchord]
      exact ih.surround keysym

theorem mem_clicksAt {x y : UInt16} {button : UInt8} {count : Nat} {op : RfbOp}
    (h : op ∈ clicksAt x y button count) : op = .pointer x y 0 ∨ op = .pointer x y button := by
  rcases List.mem_cons.mp h with rfl | h
  · exact .inl rfl
  · obtain ⟨pair, hpair, hmem⟩ := List.mem_flatten.mp h
    rw [List.eq_of_mem_replicate hpair] at hmem
    simp only [List.mem_cons, List.not_mem_nil, or_false] at hmem
    exact hmem.symm

theorem clicksAt_balanced (x y : UInt16) (button : UInt8) (count : Nat) :
    KeysBalanced (clicksAt x y button count) := by
  refine pointer_balanced fun op hmem keysym down hkey => ?_
  rcases mem_clicksAt hmem with rfl | rfl <;> cases hkey

theorem key_notMem_pause (keysym : UInt32) (down : Bool) (ms : UInt64) :
    RfbOp.key keysym down ∉ pause ms := by
  unfold pause
  split <;> simp

theorem drag_balanced (start stop : UInt16 × UInt16) (pacing : DragPacing) :
    KeysBalanced (drag start stop pacing) := by
  refine pointer_balanced fun op hmem keysym down hkey => ?_
  subst hkey
  simp [drag, heldMove, key_notMem_pause] at hmem

/-! ## The pointer events of a shape -/

theorem pointers_append (ops ops' : List RfbOp) :
    pointers (ops ++ ops') = pointers ops ++ pointers ops' := by
  rw [pointers, inputs_append, List.filterMap_append]
  rfl

theorem pointers_pause (ms : UInt64) : pointers (pause ms) = [] := by
  unfold pause
  split <;> rfl

/-- What separates blocks without pointing leaves the pointer events of the blocks. -/
theorem pointers_intercalate {sep : List RfbOp} (hsep : pointers sep = [])
    (blocks : List (List RfbOp)) : pointers (sep.intercalate blocks) = blocks.flatMap pointers := by
  induction blocks with
  | nil => rfl
  | cons block blocks ih =>
      cases blocks with
      | nil => simp
      | cons block' blocks =>
          rw [List.intercalate_cons_of_ne_nil (List.cons_ne_nil _ _), pointers_append,
            pointers_append, hsep, ih, List.append_nil]
          rfl

theorem pointers_clicksAt (x y : UInt16) (button : UInt8) (count : Nat) :
    pointers (clicksAt x y button count) =
      ((x, y), 0) :: (List.replicate count [((x, y), button), ((x, y), 0)]).flatten := by
  have hpairs : pointers (List.replicate count [RfbOp.pointer x y button, .pointer x y 0]).flatten =
      (List.replicate count [((x, y), button), ((x, y), 0)]).flatten := by
    induction count with
    | zero => rfl
    | succ count ih =>
        rw [List.replicate_succ, List.flatten_cons, pointers_append, ih, List.replicate_succ,
          List.flatten_cons]
        rfl
  have hcons : clicksAt x y button count =
      [.pointer x y 0] ++ (List.replicate count [RfbOp.pointer x y button, .pointer x y 0]).flatten :=
    rfl
  rw [hcons, pointers_append, hpairs]
  rfl

theorem pointers_drag (start stop : UInt16 × UInt16) (pacing : DragPacing) :
    pointers (drag start stop pacing) =
      (start, 0) :: (start, buttonLeft) ::
        (dragPoints start stop pacing).map (fun point => (point, buttonLeft)) ++ [(stop, 0)] := by
  have hheld : ((dragPoints start stop pacing).map (fun p => [held p])).flatMap pointers =
      (dragPoints start stop pacing).map (fun point => (point, buttonLeft)) := by
    rw [List.flatMap_map, List.map_eq_flatMap]
    rfl
  rw [drag_eq, pointers_append, pointers_append, pointers_append, pointers_append,
    pointers_intercalate (pointers_pause _), pointers_pause, hheld, List.append_nil,
    List.append_nil]
  rfl

theorem pointers_keys {ops : List RfbOp} (h : ∀ op ∈ ops, ∀ x y buttons, op ≠ .pointer x y buttons) :
    pointers ops = [] := by
  induction ops with
  | nil => rfl
  | cons op ops ih =>
      have hrest := ih fun op' hmem => h op' (List.mem_cons_of_mem _ hmem)
      have hcons : op :: ops = [op] ++ ops := rfl
      rw [hcons, pointers_append, hrest]
      cases op with
      | pointer x y buttons => exact absurd rfl (h _ List.mem_cons_self x y buttons)
      | key keysym down => rfl
      | sleep ms => rfl

/-! ## Gestures -/

section Gestures

variable {width height : UInt16}

theorem gesture_nil : Gesture width height [] :=
  { inside := fun _ hmem => absurd hmem List.not_mem_nil
    begins := nofun
    inPlace := .nil
    oneButton := fun _ hmem => absurd hmem List.not_mem_nil
    ends := nofun }

/-- Events that are all in one place change no button anywhere else. -/
theorem inPlace_of_same {ps : List ((UInt16 × UInt16) × UInt8)} {point : UInt16 × UInt16}
    (h : ∀ p ∈ ps, p.1 = point) : ps.IsChain (fun p q => q.2 ≠ p.2 → q.1 = p.1) :=
  (List.pairwise_iff_forall_sublist.mpr fun {p q} hsub _ => by
    rw [h p (hsub.subset (by simp)), h q (hsub.subset (by simp))]).isChain

/-- Events that all hold the same buttons change none. -/
theorem inPlace_of_held {ps : List ((UInt16 × UInt16) × UInt8)} {buttons : UInt8}
    (h : ∀ p ∈ ps, p.2 = buttons) : ps.IsChain (fun p q => q.2 ≠ p.2 → q.1 = p.1) :=
  (List.pairwise_iff_forall_sublist.mpr fun {p q} hsub hne => by
    exact absurd ((h q (hsub.subset (by simp))).trans (h p (hsub.subset (by simp))).symm) hne).isChain

theorem clicksAt_gesture {x y : UInt16} (hx : x < width) (hy : y < height) {button : UInt8}
    (hbutton : ∃ i < 8, button.toNat = 2 ^ i) (count : Nat) :
    Gesture width height (pointers (clicksAt x y button count)) := by
  have hmem : ∀ p ∈ pointers (clicksAt x y button count), p = ((x, y), 0) ∨ p = ((x, y), button) := by
    intro p hp
    rw [pointers_clicksAt] at hp
    rcases List.mem_cons.mp hp with rfl | hp
    · exact .inl rfl
    · obtain ⟨pair, hpair, hmem⟩ := List.mem_flatten.mp hp
      rw [List.eq_of_mem_replicate hpair] at hmem
      simp only [List.mem_cons, List.not_mem_nil, or_false] at hmem
      exact hmem.symm
  refine { inside := ?_, begins := ?_, inPlace := ?_, oneButton := ?_, ends := ?_ }
  · intro p hp
    rcases hmem p hp with rfl | rfl
    · exact ⟨hx, hy⟩
    · exact ⟨hx, hy⟩
  · rw [pointers_clicksAt]
    intro p hp
    cases hp
    rfl
  · refine inPlace_of_same fun p hp => (?_ : p.1 = (x, y))
    rcases hmem p hp with rfl | rfl <;> rfl
  · intro p hp
    rcases hmem p hp with rfl | rfl
    · exact .inl rfl
    · exact .inr hbutton
  · intro p hp
    rw [pointers_clicksAt] at hp
    cases count with
    | zero => cases hp; rfl
    | succ count =>
        rw [List.replicate_succ', List.flatten_append, ← List.cons_append, List.getLast?_append]
          at hp
        cases hp
        rfl

/-- The last held move is at the end of the drag. -/
theorem getLast?_dragPoints (start stop : UInt16 × UInt16) (pacing : DragPacing) :
    (dragPoints start stop pacing).getLast? = some stop := by
  obtain ⟨hx, hy⟩ := dragPoints_straight start stop pacing
  have hfst := hx.arrives
  have hsnd := hy.arrives
  rw [List.getLast?_map] at hfst hsnd
  cases hlast : (dragPoints start stop pacing).getLast? with
  | none =>
      rw [hlast] at hfst
      cases hfst
  | some point =>
      rw [hlast] at hfst hsnd
      injection hfst with hfst
      injection hsnd with hsnd
      exact congrArg some (Prod.ext hfst hsnd)

/-- Every held move is on the screen that both ends are on. -/
theorem dragPoints_inside {start stop : UInt16 × UInt16}
    (hstart : start.1 < width ∧ start.2 < height) (hstop : stop.1 < width ∧ stop.2 < height)
    (pacing : DragPacing) {point : UInt16 × UInt16} (h : point ∈ dragPoints start stop pacing) :
    point.1 < width ∧ point.2 < height := by
  obtain ⟨hx, hy⟩ := dragPoints_straight start stop pacing
  obtain ⟨i, hi, rfl⟩ := List.getElem_of_mem h
  have hbx := hx.between i (by rwa [List.length_map])
  have hby := hy.between i (by rwa [List.length_map])
  rw [List.getElem_map] at hbx hby
  simp only [UInt16.le_iff_toNat_le, UInt16.lt_iff_toNat_lt] at hbx hby hstart hstop ⊢
  omega

theorem drag_gesture {start stop : UInt16 × UInt16}
    (hstart : start.1 < width ∧ start.2 < height) (hstop : stop.1 < width ∧ stop.2 < height)
    (pacing : DragPacing) : Gesture width height (pointers (drag start stop pacing)) := by
  rw [pointers_drag]
  have hleft : ∃ i < 8, buttonLeft.toNat = 2 ^ i := ⟨0, by decide⟩
  have hmem : ∀ p ∈ (start, (0 : UInt8)) :: (start, buttonLeft) ::
      (dragPoints start stop pacing).map (fun point => (point, buttonLeft)) ++ [(stop, 0)],
      (p.1.1 < width ∧ p.1.2 < height) ∧ (p.2 = 0 ∨ p.2 = buttonLeft) := by
    intro p hp
    rcases List.mem_append.mp hp with hp | hp
    · rcases List.mem_cons.mp hp with rfl | hp
      · exact ⟨hstart, .inl rfl⟩
      · rcases List.mem_cons.mp hp with rfl | hp
        · exact ⟨hstart, .inr rfl⟩
        · obtain ⟨point, hpoint, rfl⟩ := List.mem_map.mp hp
          exact ⟨dragPoints_inside hstart hstop pacing hpoint, .inr rfl⟩
    · rw [List.mem_singleton.mp hp]
      exact ⟨hstop, .inl rfl⟩
  refine { inside := ?_, begins := ?_, inPlace := ?_, oneButton := ?_, ends := ?_ }
  · intro p hp
    exact (hmem p hp).1
  · intro p hp
    cases hp
    rfl
  · rw [List.isChain_append]
    refine ⟨?_, .singleton _, ?_⟩
    · -- pressed where the drag starts, and held from there
      rw [List.isChain_cons_cons]
      refine ⟨fun _ => rfl, inPlace_of_held fun p hp => (?_ : p.2 = buttonLeft)⟩
      rcases List.mem_cons.mp hp with rfl | hp
      · rfl
      · obtain ⟨point, -, rfl⟩ := List.mem_map.mp hp
        rfl
    · -- released where the last held move is
      intro p hp q hq _
      rw [List.getLast?_cons_cons, List.getLast?_cons, List.getLast?_map, getLast?_dragPoints] at hp
      cases hp
      cases hq
      rfl
  · intro p hp
    rcases (hmem p hp).2 with hzero | hheld
    · exact .inl hzero
    · exact .inr (hheld ▸ hleft)
  · intro p hp
    rw [List.getLast?_append] at hp
    cases hp
    rfl

end Gestures

/-! ## Well-formed plans -/

theorem masks_clicksAt (x y : UInt16) (button : UInt8) (count : Nat) :
    masks (clicksAt x y button count) = 0 :: (List.replicate count [button, 0]).flatten := by
  rw [masks, pointers_clicksAt, List.map_cons, List.map_flatten, List.map_replicate]
  rfl

theorem masks_drag (start stop : UInt16 × UInt16) (pacing : DragPacing) :
    masks (drag start stop pacing) = 0 :: buttonLeft ::
      List.replicate (max 1 pacing.steps.toNat) buttonLeft ++ [0] := by
  have hheld : ((dragPoints start stop pacing).map (fun point => (point, buttonLeft))).map Prod.snd =
      List.replicate (max 1 pacing.steps.toNat) buttonLeft := by
    rw [List.map_map, ← length_dragPoints start stop pacing]
    exact List.map_const'
  rw [masks, pointers_drag, List.map_append, List.map_cons, List.map_cons, hheld]
  rfl

theorem length_clicksAt (x y : UInt16) (button : UInt8) (count : Nat) :
    (clicksAt x y button count).length = 2 * count + 1 := by
  rw [clicksAt, List.length_cons, List.length_flatten, List.map_replicate, List.sum_replicate]
  simp only [List.length_cons, List.length_nil, smul_eq_mul]
  omega

/-- A plan that does not point, of an action that asks for no pointing. -/
theorem keys_wellFormed (hpointers : pointers ops = []) (hkeys : KeysBalanced ops)
    (hpresses : ∀ button count, action.presses? = some (button, count) → count = 0 ∧ ops = [])
    (hdrag : ∀ start stop, action ≠ .leftClickDrag start stop)
    (hmove : ∀ coordinate, action ≠ .mouseMove coordinate)
    (htyped : ∀ text, action = .type text → ∃ syms,
      List.Forall₂ (fun c keysym => keysymForTyped c = .ok keysym) text.toList syms ∧
        ops = syms.flatMap tap)
    (hchord : ∀ text, action = .key text → ∃ syms, parseChord text = .ok syms ∧ ops = chord syms)
    (hsilent : action = .screenshot ∨ action = .cursorPosition → ops = []) :
    WellFormed action ctx ops :=
  { gesture := hpointers ▸ gesture_nil
    aimed := by
      rw [hpointers]
      exact nofun
    keys := hkeys
    presses := fun button count h => by
      rw [if_pos (hpresses button count h).1]
      exact (hpresses button count h).2
    released := fun start stop h => absurd h (hdrag start stop)
    moved := fun coordinate h => absurd h (hmove coordinate)
    typed := htyped
    chord := hchord
    silent := hsilent }

theorem Shape.wellFormed (h : Shape ctx action ops) : WellFormed action ctx ops := by
  cases h with
  | silent h =>
      rcases h with rfl | rfl
      · exact keys_wellFormed rfl balanced_nil nofun nofun nofun nofun nofun (fun _ => rfl)
      · exact keys_wellFormed rfl balanced_nil nofun nofun nofun nofun nofun (fun _ => rfl)
  | @clicks action coordinate button count x y hcoordinates hpresses hbutton hcount hcheck =>
      obtain ⟨hx, hy⟩ := check_inside hcheck
      exact
        { gesture := clicksAt_gesture hx hy hbutton count
          aimed := fun p hp => by
            rw [pointers_clicksAt] at hp
            cases hp
            rw [hcoordinates]
            exact ⟨coordinate, rfl, (check_ok hcheck).2⟩
          keys := clicksAt_balanced x y button count
          presses := fun button' count' h => by
            rw [hpresses] at h
            cases h
            rw [if_neg (Nat.ne_of_gt hcount)]
            exact ⟨masks_clicksAt x y button count, length_clicksAt x y button count⟩
          released := by rintro _ _ rfl; cases hpresses
          moved := by rintro _ rfl; cases hpresses
          typed := by rintro _ rfl; cases hpresses
          chord := by rintro _ rfl; cases hpresses
          silent := by rintro (rfl | rfl) <;> cases hpresses }
  | stays hcheck =>
      refine keys_wellFormed rfl balanced_nil (fun button count h => ?_) nofun nofun nofun nofun
        (fun _ => rfl)
      cases h
      exact ⟨rfl, rfl⟩
  | @drag startCoordinate coordinate start stop hstart hstop =>
      exact
        { gesture := drag_gesture (check_inside hstart) (check_inside hstop) ctx.drag
          aimed := fun p hp => by
            rw [pointers_drag] at hp
            cases hp
            exact ⟨startCoordinate, rfl, (check_ok hstart).2⟩
          keys := drag_balanced start stop ctx.drag
          presses := nofun
          released := fun _ _ h => by
            cases h
            refine ⟨_, masks_drag start stop ctx.drag, stop.1, stop.2, (check_ok hstop).2, ?_⟩
            rw [drag_eq, List.getLast?_append]
            rfl
          moved := nofun
          typed := nofun
          chord := nofun
          silent := nofun }
  | @move coordinate x y hcheck =>
      have hbutton : ∃ i < 8, buttonLeft.toNat = 2 ^ i := ⟨0, by decide⟩
      have hclicks := clicksAt_gesture (check_inside hcheck).1 (check_inside hcheck).2 hbutton 0
      exact
        { gesture := hclicks
          aimed := fun p hp => by
            cases hp
            exact ⟨coordinate, rfl, (check_ok hcheck).2⟩
          keys := clicksAt_balanced x y buttonLeft 0
          presses := nofun
          released := nofun
          moved := fun _ _ => ⟨rfl, rfl⟩
          typed := nofun
          chord := nofun
          silent := nofun }
  | @typed text syms hsyms =>
      refine keys_wellFormed (pointers_keys fun op hmem x y buttons heq => ?_) (typed_balanced syms)
        nofun nofun nofun (fun _ h => ?_) nofun nofun
      · subst heq
        simp [tap] at hmem
      · cases h
        exact ⟨syms, hsyms, rfl⟩
  | @chord text syms hsyms =>
      refine keys_wellFormed (pointers_keys fun op hmem x y buttons heq => ?_) (chord_balanced syms)
        nofun nofun nofun nofun (fun _ h => ?_) nofun
      · subst heq
        simp [Server.chord] at hmem
      · cases h
        exact ⟨syms, hsyms, rfl⟩
  | wait duration =>
      exact keys_wellFormed rfl (pointer_balanced fun op hmem => by
        rw [List.mem_singleton.mp hmem]
        exact nofun) nofun nofun nofun nofun nofun nofun

/-- **Every plan is well formed**, and there is one exactly when the
coordinates of the action are on the screen and its chord parses. -/
theorem plan_wellFormed (action : ComputerAction) (ctx : PlanContext) :
    ((∃ ops, plan action ctx = .ok ops) ↔ Plannable action ctx) ∧
      ∀ ops, plan action ctx = .ok ops → WellFormed action ctx ops :=
  ⟨⟨fun ⟨_, h⟩ => (shape_of_plan h).plannable, plan_of_plannable⟩,
    fun _ h => (shape_of_plan h).wellFormed⟩

end Plan

end Bolide.Server
