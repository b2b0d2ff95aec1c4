/-
Bolide.Server.ScreenTheorems — the screen an action is checked against, and
the one it is performed on.

`computer` reads the size, plans for it, and only then waits for the hands;
the desktop may be resized meanwhile. Where no resize takes a coordinate off
the screen before its request has the hands, every PointerEvent lies on the
screen of that moment; a request that does not fit the screen it reads is
answered `out_of_bounds` and sends nothing.

A plan depends on the size by its checks alone (`plan_congr`), so a plan for
the screen that was read is the plan for the screen there is.
-/
import Bolide.Server.BraidTheorems
import Bolide.Server.PlanTheorems

namespace Bolide.Server

open Lib Prog Bolide.Rfb

/-! ## What the law says -/

/-- The size a step gives the screen: only a DesktopSize rect gives it one. -/
def resizes? : Tasks.Entry ServeSig → Option (UInt16 × UInt16)
  | ⟨_, .inl (.inl (.desktopSize w h)), _⟩ => some (w, h)
  | _ => none

/-- The size of the screen after what has happened. -/
def screen (size : UInt16 × UInt16) (t : List (Tasks.Entry ServeSig)) : UInt16 × UInt16 :=
  t.foldl (fun size e => (resizes? e).getD size) size

/-- What `plan` is told of a screen of a size. -/
abbrev screenContext (drag : DragPacing) (size : UInt16 × UInt16) : PlanContext :=
  { width := size.1, height := size.2, drag }

/-- The coordinates of an action lie on a screen of a size. -/
def Fits (drag : DragPacing) (size : UInt16 × UInt16) (action : ComputerAction) : Prop :=
  ∀ coordinate ∈ action.coordinates, (screenContext drag size).Inside coordinate

/-- Task `i` has sent nothing, and does not end but with `out_of_bounds`. -/
structure OutOfBounds (i : Nat) (t : List (Tasks.Entry ServeSig))
    (c : Tasks ServeSig Left Reply Desk Own) : Prop where
  silent : sentBy i t = []
  unanswered : ∀ reply own, c.tasks[i]? ≠ some (.ret reply, own)
  refused : ∀ left own, c.tasks[i]? = some (.fail left, own) →
    ∃ e, left = .refused (.api e) ∧ e.code = .outOfBounds

/-- Every action is checked against the screen it is performed on. -/
structure Checked (jobs : List Job) (drag : DragPacing) (size : UInt16 × UInt16)
    (t : List (Tasks.Entry ServeSig)) (c : Tasks ServeSig Left Reply Desk Own) : Prop where
  inside : ∀ i before after x y buttons, t = before ++ acquires i :: after →
    .pointer x y buttons ∈ sentBy i t →
    x < (screen size before).1 ∧ y < (screen size before).2
  outside : ∀ i n action before after, t = before ++ acquires i :: after →
    jobOf jobs i = some (.computer n action) → ¬ Fits drag (screen size before) action →
    OutOfBounds i t c

/-- The condition on a step: a request that acquires the hands still fits the
screen, if it fitted the one it has read. -/
structure Unresized (jobs : List Job) (drag : DragPacing) (t : List (Tasks.Entry ServeSig))
    (c : Tasks ServeSig Left Reply Desk Own) (i : Nat) (_m : Choice) : Prop where
  still : ∀ k own n action size, c.tasks[i]? = some (.step (.inr .lock) k, own) →
    jobOf jobs i = some (.computer n action) → ⟨i, .inl (.inl .size), size⟩ ∈ t →
    Fits drag size action → Fits drag c.shared.1.1.size action

theorem screen_snoc (size : UInt16 × UInt16) (t : List (Tasks.Entry ServeSig))
    (e : Tasks.Entry ServeSig) :
    screen size (t ++ [e]) = (resizes? e).getD (screen size t) := by
  simp [screen]

/-! ## Plans and sizes -/

section Plan

variable {action : ComputerAction} {ctx ctx' : PlanContext} {ops : List RfbOp}

/-- A coordinate on the screen is its pixel, whatever the size. -/
theorem check_of_inside {coordinate : Coordinate} (h : ctx.Inside coordinate) :
    ctx.check coordinate =
      .ok (UInt16.ofInt coordinate.1.toInt, UInt16.ofInt coordinate.2.toInt) := by
  obtain ⟨⟨hx, hwidth⟩, hy, hheight⟩ := h
  have hin : ¬ (coordinate.1.toInt < 0 ∨ coordinate.2.toInt < 0 ∨
      ctx.width.toNat ≤ coordinate.1.toInt ∨ ctx.height.toNat ≤ coordinate.2.toInt) := by
    omega
  exact if_neg hin

/-- A coordinate off the screen is refused, by name. -/
theorem check_of_outside {coordinate : Coordinate} (h : ¬ ctx.Inside coordinate) :
    ctx.check coordinate =
      .error (.outOfBounds coordinate.1 coordinate.2 ctx.width ctx.height) := by
  have hout : coordinate.1.toInt < 0 ∨ coordinate.2.toInt < 0 ∨
      ctx.width.toNat ≤ coordinate.1.toInt ∨ ctx.height.toNat ≤ coordinate.2.toInt := by
    unfold PlanContext.Inside at h
    omega
  exact if_pos hout

/-- A plan depends on the screen by the checks of its coordinates. -/
theorem plan_congr (hdrag : ctx.drag = ctx'.drag)
    (hcheck : ∀ coordinate ∈ action.coordinates, ctx.check coordinate = ctx'.check coordinate) :
    plan action ctx = plan action ctx' := by
  have hclick : ∀ coordinate button count, action.coordinates = [coordinate] →
      clickAt ctx coordinate button count = clickAt ctx' coordinate button count := by
    intro coordinate button count hcoordinates
    have hsame := hcheck coordinate (by rw [hcoordinates]; exact List.mem_singleton_self _)
    rw [clickAt, clickAt, hsame]
  cases action with
  | leftClick coordinate => exact hclick coordinate _ _ rfl
  | rightClick coordinate => exact hclick coordinate _ _ rfl
  | middleClick coordinate => exact hclick coordinate _ _ rfl
  | doubleClick coordinate => exact hclick coordinate _ _ rfl
  | tripleClick coordinate => exact hclick coordinate _ _ rfl
  | leftClickDrag startCoordinate coordinate =>
      have hstart := hcheck startCoordinate List.mem_cons_self
      have hstop := hcheck coordinate (List.mem_cons_of_mem _ (List.mem_singleton_self _))
      simp only [plan, hstart, hstop, hdrag]
  | mouseMove coordinate =>
      simp only [plan, hcheck coordinate (List.mem_singleton_self _)]
  | scroll coordinate scrollDirection scrollAmount =>
      simp only [plan, hcheck coordinate (List.mem_singleton_self _)]
  | screenshot => rfl
  | cursorPosition => rfl
  | type text => rfl
  | key text => rfl
  | wait duration => rfl

/-- A plan for one screen is the plan for every other that the action fits. -/
theorem plan_of_fits {drag : DragPacing} {size size' : UInt16 × UInt16}
    (h : plan action (screenContext drag size) = .ok ops) (hfits : Fits drag size' action) :
    plan action (screenContext drag size') = .ok ops := by
  have hread := ((plan_wellFormed action (screenContext drag size)).1.mp ⟨ops, h⟩).1
  rw [← h]
  refine plan_congr rfl (fun coordinate hmem => ?_)
  rw [check_of_inside (hfits coordinate hmem), check_of_inside (hread coordinate hmem)]

/-- An action at one coordinate, off the screen, is refused. -/
theorem plan_of_outside_one {coordinate : Coordinate} (hone : action.coordinates = [coordinate])
    (h : ¬ ctx.Inside coordinate) :
    plan action ctx = .error (.outOfBounds coordinate.1 coordinate.2 ctx.width ctx.height) := by
  have hcheck := check_of_outside h
  cases action with
  | leftClickDrag startCoordinate coordinate => cases hone
  | _ =>
      cases hone <;>
        (simp only [plan, clickAt, hcheck]
         rfl)

/-- What does not fit the screen is refused, with a coordinate that is off it. -/
theorem plan_of_outside (h : ¬ ∀ coordinate ∈ action.coordinates, ctx.Inside coordinate) :
    ∃ coordinate ∈ action.coordinates,
      plan action ctx = .error (.outOfBounds coordinate.1 coordinate.2 ctx.width ctx.height) := by
  simp only [not_forall] at h
  obtain ⟨coordinate, hmem, hout⟩ := h
  have hone : action.coordinates = [coordinate] → ∃ coordinate ∈ action.coordinates,
      plan action ctx = .error (.outOfBounds coordinate.1 coordinate.2 ctx.width ctx.height) :=
    fun hone => ⟨coordinate, hmem, plan_of_outside_one hone hout⟩
  cases action with
  | leftClickDrag startCoordinate coordinate' =>
      -- the first coordinate is checked first
      by_cases hstart : ctx.Inside startCoordinate
      · rcases List.mem_cons.mp hmem with rfl | hmem'
        · exact absurd hstart hout
        · cases List.mem_singleton.mp hmem'
          refine ⟨coordinate, hmem, ?_⟩
          simp only [plan, check_of_inside hstart, check_of_outside hout]
          rfl
      · refine ⟨startCoordinate, List.mem_cons_self, ?_⟩
        simp only [plan, check_of_outside hstart]
        rfl
  | screenshot => cases hmem
  | cursorPosition => cases hmem
  | type text => cases hmem
  | key text => cases hmem
  | wait duration => cases hmem
  | _ => exact hone (by rw [List.mem_singleton.mp hmem]; rfl)

end Plan

/-! ## What a part says -/

namespace Part

/-- The task is a request for an action. -/
def Asks : Part → Prop
  | session _ => False
  | watching => False
  | _ => True

end Part

theorem begin_asks (action : ComputerAction) (done rest : List RfbOp) :
    (Part.begin action done rest).Asks := by
  cases rest <;> trivial

namespace Part.Goes

variable {drag : DragPacing} {part part' : Part} {i : Nat} {o : ServeSig.Op} {r : ServeSig.Resp o}

/-- A request stays one. -/
theorem asks (h : part.Goes drag o r part') (hasks : part.Asks) : part'.Asks := by
  cases h with
  | session _ _ => exact hasks
  | watches _ _ => exact hasks
  | @sized action size =>
      rcases planned_cases drag action size with ⟨ops, hplan⟩ | ⟨e, hplan⟩ <;> rw [hplan] <;>
        trivial
  | begun => exact begin_asks _ _ _
  | through _ => exact begin_asks _ _ _
  | recorded => exact begin_asks _ _ _
  | _ => trivial

/-- Only the session draws, and it keeps the size. -/
theorem draws {f : Framebuffer → Outcome Framebuffer} {r : Outcome Unit}
    (h : part.Goes drag (.inl (.inl (.draw f))) r part') : KeepsSize f := by
  cases h with
  | session hmay _ => exact Role.keepsSize hmay
  | watches _ hwatches => exact hwatches.elim

/-- Only a request reads the size for a plan, and it reads it once. -/
theorem sizes {size : UInt16 × UInt16} (h : part.Goes drag (.inl (.inl .size)) size part')
    (hasks : part.Asks) : ∃ action, part = .fresh action ∧ part' = planned drag action size := by
  cases h with
  | session _ _ => exact hasks.elim
  | watches _ hwatches => exact hwatches.elim
  | sized size => exact ⟨_, rfl, rfl⟩

/-- A request that is refused does no more. -/
theorem not_rejected {e : ActionError} (h : part.Goes drag o r part') : part ≠ .rejected e := by
  rintro rfl
  cases h with
  | watches hwatching _ => exact hwatching

end Part.Goes

/-! ## The size of the screen -/

section

variable {jobs : List Job} {drag : DragPacing} {size : UInt16 × UInt16} {γ : Nat → Part}
  {t : List (Tasks.Entry ServeSig)} {c : Tasks ServeSig Left Reply Desk Own} {i : Nat} {m : Choice}
  {o : ServeSig.Op} {k : ServeSig.Resp o → HandlerTask Reply} {own own' : Own}
  {r : ServeSig.Resp o} {s s' : Desk} {part part' : Part}

/-- Only a DesktopSize rect resizes the screen. -/
theorem size_step (hgoes : part.Goes drag o r part')
    (hdoes : serveDoes o m s own = some (r, s', own')) :
    s'.1.1.size = (resizes? ⟨i, o, r⟩).getD s.1.1.size := by
  cases o with
  | inr o =>
      rw [(serveDoes_inr hdoes).2.1]
      rfl
  | inl o =>
      cases o with
      | inr o =>
          rw [(serveDoes_app hdoes).2.1]
          rfl
      | inl o =>
          rw [sessionDoes_after (serveDoes_session hdoes).1]
          by_cases hresize : ∃ w h, o = .desktopSize w h
          · obtain ⟨w, h, rfl⟩ := hresize
            rfl
          · have hnone : resizes? ⟨i, .inl (.inl o), r⟩ = none := by
              unfold resizes?
              split
              · next w h heq =>
                  cases heq
                  exact absurd ⟨_, _, rfl⟩ hresize
              · rfl
            rw [hnone]
            refine after_size (fun w h heq => hresize ⟨w, h, heq⟩) (fun f heq => ?_) r s.1.1
            subst heq
            exact hgoes.draws

/-! ## The invariant -/

/-- Every plan of a request that has acquired the hands is its plan for the
screen of that moment, and a request that did not fit the screen it read has
been refused. -/
structure Fitted (jobs : List Job) (drag : DragPacing) (size : UInt16 × UInt16) (γ : Nat → Part)
    (t : List (Tasks.Entry ServeSig)) (c : Tasks ServeSig Left Reply Desk Own) : Prop where
  turns : Turns γ t c
  planned : Planned jobs drag γ t
  sized : c.shared.1.1.size = screen size t
  asks : ∀ i n action, jobOf jobs i = some (.computer n action) → (γ i).Asks
  fitted : ∀ i before after action ops, t = before ++ acquires i :: after →
    (γ i).plan? = some (action, ops) → plan action (screenContext drag (screen size before)) = .ok ops
  refused : ∀ i n action read, jobOf jobs i = some (.computer n action) →
    ⟨i, .inl (.inl .size), read⟩ ∈ t → ¬ Fits drag read action →
    ∃ e, γ i = .rejected e ∧ (fromAction e).code = .outOfBounds

theorem mem_acquired {before after : List (Tasks.Entry ServeSig)}
    (h : t = before ++ acquires i :: after) : i ∈ acquired t := by
  rw [h, acquired_append]
  exact List.mem_append_right _ List.mem_cons_self

/-- A plan that fits the screen when its turn begins. -/
theorem fitted_step (h : Fitted jobs drag size γ t c) (hunresized : Unresized jobs drag t c i m)
    (htask : c.tasks[i]? = some (.step o k, own)) (hgoes : (γ i).Goes drag o r part') {j : Nat}
    {before after : List (Tasks.Entry ServeSig)} {action : ComputerAction} {ops : List RfbOp}
    (ht : t ++ [⟨i, o, r⟩] = before ++ acquires j :: after)
    (hplan : (Function.update γ i part' j).plan? = some (action, ops)) :
    plan action (screenContext drag (screen size before)) = .ok ops := by
  rcases Tasks.snoc_split ht with ⟨_, rfl, hentry⟩ | ⟨rest, _, hbefore⟩
  · -- the turn begins
    obtain ⟨rfl, hentry⟩ := Tasks.Entry.mk.inj hentry
    obtain ⟨rfl, _⟩ := hentry
    rw [Function.update_self] at hplan
    obtain ⟨action', ops', hqueued, rfl⟩ := hgoes.queued
    rw [begin_plan, List.nil_append] at hplan
    have hplan : (γ i).plan? = some (action, ops) := by
      rw [hqueued]
      exact hplan
    obtain ⟨n, hjob⟩ := h.planned.asks i action (.inr ⟨ops, hplan⟩)
    obtain ⟨read, hmem, hok⟩ := h.planned.plans i action ops hplan
    have hread : Fits drag read action := ((plan_wellFormed action _).1.mp ⟨ops, hok⟩).1
    have hstill := hunresized.still k own n action read htask hjob hmem hread
    rw [h.sized] at hstill
    exact plan_of_fits hok hstill
  · have hearlier : (γ j).plan? = some (action, ops) →
        plan action (screenContext drag (screen size before)) = .ok ops :=
      h.fitted j before rest action ops hbefore
    by_cases hji : j = i
    · subst hji
      rw [Function.update_self] at hplan
      rcases hgoes.plan (i := j) hplan with hplan | ⟨hfresh, _⟩
      · exact hearlier hplan
      · have hacquired := (h.turns.turns j).mp (mem_acquired hbefore)
        rw [hfresh] at hacquired
        exact hacquired.elim
    · rw [Function.update_of_ne hji] at hplan
      exact hearlier hplan

/-- A request that does not fit the screen it reads is refused. -/
theorem refused_step (h : Fitted jobs drag size γ t c) (hgoes : (γ i).Goes drag o r part')
    {j n : Nat} {action : ComputerAction} {read : UInt16 × UInt16}
    (hjob : jobOf jobs j = some (.computer n action))
    (hmem : ⟨j, .inl (.inl .size), read⟩ ∈ t ++ [⟨i, o, r⟩]) (hout : ¬ Fits drag read action) :
    ∃ e, Function.update γ i part' j = .rejected e ∧ (fromAction e).code = .outOfBounds := by
  rcases List.mem_append.mp hmem with hmem | hmem
  · obtain ⟨e, hrejected, hcode⟩ := h.refused j n action read hjob hmem hout
    by_cases hji : j = i
    · subst hji
      exact (hgoes.not_rejected hrejected).elim
    · exact ⟨e, by rw [Function.update_of_ne hji, hrejected], hcode⟩
  · obtain ⟨rfl, rfl, hanswer⟩ := Tasks.Entry.mk.inj (List.mem_singleton.mp hmem)
    cases hanswer
    obtain ⟨action', hfresh, rfl⟩ := hgoes.sizes (h.asks j n action hjob)
    obtain ⟨n', hjob'⟩ := h.planned.asks j action' (.inl hfresh)
    rw [hjob] at hjob'
    cases hjob'
    obtain ⟨coordinate, _, herror⟩ := plan_of_outside hout
    refine ⟨.outOfBounds coordinate.1 coordinate.2 read.1 read.2, ?_, rfl⟩
    rw [Function.update_self, Part.planned, herror]

theorem fitted_next (h : Fitted jobs drag size γ t c) (hunresized : Unresized jobs drag t c i m)
    (htask : c.tasks[i]? = some (.step o k, own)) (hgoes : (γ i).Goes drag o r part')
    (hdoes : serveDoes o m c.shared own = some (r, s', own')) :
    Fitted jobs drag size (Function.update γ i part') (t ++ [⟨i, o, r⟩])
      ⟨s', c.tasks.set i (k r, own')⟩ where
  turns := turns_step h.turns hgoes hdoes
  planned := planned_step h.planned hgoes
  sized := by
    rw [screen_snoc, ← h.sized]
    exact size_step hgoes hdoes
  asks j n action hjob := by
    by_cases hji : j = i
    · subst hji
      rw [Function.update_self]
      exact hgoes.asks (h.asks j n action hjob)
    · rw [Function.update_of_ne hji]
      exact h.asks j n action hjob
  fitted j before after action ops ht hplan := fitted_step h hunresized htask hgoes ht hplan
  refused j n action read hjob hmem hout := refused_step h hgoes hjob hmem hout

end

/-! ## Runs -/

section

variable {z : Decompress} {width height : UInt16} {name : String} {continuous : Bool} {n m : Nat}
  {d : Decoders z} {time : Duration} {config : HandlerConfig} {jobs : List Job}
  {t : List (Tasks.Entry ServeSig)} {c : Tasks ServeSig Left Reply Desk Own}

theorem fitted_start (z : Decompress) (width height : UInt16) (name : String) (continuous : Bool)
    (n m : Nat) (d : Decoders z) (time : Duration) (config : HandlerConfig) (jobs : List Job) :
    Fitted jobs config.drag (width, height) (serviceParts continuous jobs) []
      (service width height name continuous n m d time config jobs) where
  turns := turns_start width height name continuous n m d time config jobs
  planned := (braided_start z width height name continuous n m d time config jobs).planned
  sized := rfl
  asks i n action hjob := by
    match i, hjob with
    | j + 3, hjob =>
        have hget : jobs[j]? = some (.computer n action) := hjob
        simp only [serviceParts, hget]
        trivial
  fitted i before after action ops ht := by
    cases before <;> cases ht
  refused i n action read hjob hmem := by cases hmem

/-- The invariant holds after every run. -/
theorem fitted_runs (h : Tasks.Runs serveDoes (Unresized jobs config.drag)
    (service width height name continuous n m d time config jobs) t c) :
    ∃ γ, Tasks.Roles (parts continuous config.drag) Part.Ended γ c ∧
      Fitted jobs config.drag (width, height) γ t c :=
  service_joint h (fitted_start z width height name continuous n m d time config jobs)
    (fun _ _ _ _ _ _ _ _ _ _ _ _ hunresized h htask hgoes hdoes =>
      fitted_next h hunresized htask hgoes hdoes)

/-- A request that was refused has sent nothing and is answered so. -/
theorem outOfBounds_of_rejected {γ : Nat → Part} {i : Nat} {e : ActionError}
    (hturns : Turns γ t c) (hroles : Tasks.Roles (parts continuous config.drag) Part.Ended γ c)
    (hrejected : γ i = .rejected e) (hcode : (fromAction e).code = .outOfBounds) :
    OutOfBounds i t c where
  silent := by
    rw [hturns.sent i, hrejected]
    rfl
  unanswered reply own htask := by
    have hended := hroles i _ _ htask
    rw [hrejected] at hended
    exact hended.elim
  refused left own htask := by
    have hfails : (γ i).fails left := hroles i _ _ htask
    rw [hrejected] at hfails
    exact ⟨_, hfails, hcode⟩

/-- **Coordinates are checked against the screen they are used on**, in every
run in which a request that acquires the hands still fits the screen if it
fitted the one it read. A request that does not fit the screen it reads is
answered `out_of_bounds` and sends nothing. -/
theorem coordinates_checked (h : Tasks.Runs serveDoes (Unresized jobs config.drag)
    (service width height name continuous n m d time config jobs) t c) :
    Checked jobs config.drag (width, height) t c ∧
      ∀ i n action read, jobOf jobs i = some (.computer n action) →
        ⟨i, .inl (.inl .size), read⟩ ∈ t → ¬ Fits config.drag read action →
        i ∉ acquired t ∧ OutOfBounds i t c := by
  obtain ⟨γ, hroles, h⟩ := fitted_runs h
  refine ⟨⟨fun i before after x y buttons ht hmem => ?_, fun i n action before after ht hjob hout =>
    ?_⟩, fun i n action read hjob hmem hout => ?_⟩
  · obtain ⟨action, ops, hplan⟩ := ((h.turns.turns i).mp (mem_acquired ht)).plan
    have hok := h.fitted i before after action ops ht hplan
    rw [h.turns.sent i] at hmem
    have hpoint : ((x, y), buttons) ∈ pointers ops :=
      List.mem_filterMap.mpr ⟨_, (Part.sent_prefix hplan).subset hmem, rfl⟩
    exact ((plan_wellFormed action _).2 ops hok).gesture.inside _ hpoint
  · obtain ⟨action', ops, hplan⟩ := ((h.turns.turns i).mp (mem_acquired ht)).plan
    obtain ⟨n', hjob'⟩ := h.planned.asks i action' (.inr ⟨ops, hplan⟩)
    rw [hjob] at hjob'
    cases hjob'
    have hok := h.fitted i before after action ops ht hplan
    exact absurd ((plan_wellFormed action _).1.mp ⟨ops, hok⟩).1 hout
  · obtain ⟨e, hrejected, hcode⟩ := h.refused i n action read hjob hmem hout
    refine ⟨fun hacquired => ?_, outOfBounds_of_rejected h.turns hroles hrejected hcode⟩
    have hturn := (h.turns.turns i).mp hacquired
    rw [hrejected] at hturn
    exact hturn

end

/-! ## A resize between the size and the hands -/

/-- The settings a server has by default. -/
def usual : HandlerConfig := ⟨⟨500000000, 5000000000⟩, ⟨20, 20, 150⟩⟩

/-- A request to move the pointer. -/
def move : List Job := [.computer 0 (.mouseMove (3, 4))]

/-- A server with a request to move the pointer. -/
def pointing : Tasks ServeSig Left Reply Desk Own :=
  service 8 8 "desktop" false 1 0 (Decoders.new stored) 0 usual move

/-- The size a step reads. -/
def reads? : Tasks.Entry ServeSig → Option (UInt16 × UInt16)
  | ⟨_, .inl (.inl .size), size⟩ => some size
  | _ => none

/-- A step at which the screen has every size that was read of it. -/
def unresized? (t : List (Tasks.Entry ServeSig)) (c : Tasks ServeSig Left Reply Desk Own)
    (_i : Nat) (_m : Choice) : Bool :=
  (t.filterMap reads?).all (fun size => size = c.shared.1.1.size)

theorem unresized_of_check (jobs : List Job) (drag : DragPacing)
    (t : List (Tasks.Entry ServeSig)) (c : Tasks ServeSig Left Reply Desk Own) (i : Nat)
    (m : Choice) (h : unresized? t c i m = true) : Unresized jobs drag t c i m where
  still k own n action size _ _ hmem hfits := by
    have hsize := List.all_eq_true.mp h size (List.mem_filterMap.mpr ⟨_, hmem, rfl⟩)
    rwa [← of_decide_eq_true hsize]

/-- The request is performed from its size to its answer. -/
def pointed : List (Nat × Choice) := moves 3 (List.replicate 10 [])

theorem coordinates_checked_move :
    ∃ t c, Tasks.Runs serveDoes (Unresized move usual.drag) pointing t c ∧
      sentBy 3 t = [.pointer 3 4 0] ∧ Checked move usual.drag (8, 8) t c := by
  have hend : (pointing.record unresized? serveDoes pointed []).map (fun e => sentBy 3 e.1) =
      some [.pointer 3 4 0] := by
    decide +kernel
  obtain ⟨⟨t, c⟩, hrecord, hsent⟩ := Option.map_eq_some_iff.mp hend
  have hrun := Tasks.runs_record (unresized_of_check move usual.drag) hrecord .start
  exact ⟨t, c, hrun, hsent, (coordinates_checked hrun).1⟩

/-- What acquires the hands for a task. -/
theorem eq_acquires {e : Tasks.Entry ServeSig} {i : Nat} (h : acquires? e = some i) :
    e = acquires i := by
  unfold acquires? at h
  split at h
  · cases h
    rfl
  · cases h

/-- The desktop shrinks from `8x8` to `2x1` while the request waits for the
hands. -/
def shrinking : List (Nat × Choice) := moves 3 [[]] ++ resizes

/-- The pointer is moved to a place that is not on the screen. -/
theorem not_coordinates_checked :
    ¬ ∀ t c, Tasks.Runs serveDoes Tasks.Anyhow pointing t c →
      Checked move usual.drag (8, 8) t c := by
  intro hall
  have hend : (pointing.record (fun _ _ _ _ => true) serveDoes
      (shrinking ++ moves 3 (List.replicate 9 [])) []).map
      (fun e => (screen (8, 8) (e.1.take 15), (e.1.drop 15).head?.bind acquires?, sentBy 3 e.1)) =
        some ((2, 1), some 3, [.pointer 3 4 0]) := by
    decide +kernel
  obtain ⟨⟨t, c⟩, hrecord, heq⟩ := Option.map_eq_some_iff.mp hend
  obtain ⟨hscreen, heq⟩ := Prod.mk.inj heq
  obtain ⟨hacquires, hsent⟩ := Prod.mk.inj heq
  obtain ⟨e, hhead, he⟩ := Option.bind_eq_some_iff.mp hacquires
  obtain ⟨after, hafter⟩ := List.head?_eq_some_iff.mp hhead
  have ht : t = t.take 15 ++ acquires 3 :: after := by
    rw [← eq_acquires he, ← hafter, List.take_append_drop]
  have hchecked := hall t c (Tasks.runs_record (fun _ _ _ _ _ => trivial) hrecord .start)
  have hinside := (hchecked.inside 3 _ after 3 4 0 ht (by rw [hsent]; exact List.mem_cons_self)).1
  rw [hscreen] at hinside
  exact absurd hinside (by decide)

end Bolide.Server
