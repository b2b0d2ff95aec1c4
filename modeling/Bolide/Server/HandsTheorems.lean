/-
Bolide.Server.HandsTheorems — the hands are put down.

A plan begins and ends without a button and without a key, and its input is
stamped before the hands are let go of. A handler that is dropped lets go of
them where it stands: with a button down, a key down, or its input not
stamped. Where a drop leaves none of these, the hands are down whenever they
are free and the session is connected.

A plan that is cut by a failed call is no danger: a call fails only when the
session is no longer connected, and it stays so (`Shut`).
-/
import Bolide.Rfb.DeathTheorems
import Bolide.Server.BraidTheorems
import Bolide.Server.PlanTheorems

namespace Bolide.Server

open Lib Prog Bolide.Rfb

/-! ## What the law says -/

/-- The last PointerEvent holds no button, and every key that went down has
come up. -/
structure PutDown (events : List Input) : Prop where
  buttons : ∀ p ∈ (events.filterMap Input.pointer?).getLast?, p.2 = 0
  keys : ∀ keysym, events.count (.key keysym true) = events.count (.key keysym false)

/-- A screenshot takes the record of the last input. -/
def takes? : Tasks.Entry ServeSig → Bool
  | ⟨_, .inl (.inr .takeLastInput), _⟩ => true
  | _ => false

/-- The events since a screenshot last took the record. -/
def sinceTaken (t : List (Tasks.Entry ServeSig)) : List Input :=
  t.foldl (fun events e => if takes? e = true then [] else events ++ (accepts? e).toList) []

/-- The record of the last input is there if there has been input since it
was last taken. -/
def Stamped (t : List (Tasks.Entry ServeSig)) (c : Tasks ServeSig Left Reply Desk Own) : Prop :=
  sinceTaken t ≠ [] → c.shared.1.2.lastInput.isSome = true

/-- The hands are down: no button, no key, no input that is not recorded. -/
structure HandsDown (t : List (Tasks.Entry ServeSig)) (c : Tasks ServeSig Left Reply Desk Own) :
    Prop where
  down : PutDown (received t)
  stamped : Stamped t c

/-- The condition on a step: a handler that is dropped with the hands held,
while the session is connected, has put down what it took up, and there is no
input without a record. -/
structure Tidy (t : List (Tasks.Entry ServeSig)) (c : Tasks ServeSig Left Reply Desk Own)
    (i : Nat) (m : Choice) : Prop where
  leaves : ∀ k own, c.tasks[i]? = some (.step (.inr .suspend) k, own) → m.elapsed = true →
    c.shared.1.1.connected = true → PutDown (sentBy i t) ∧ Stamped t c

theorem sinceTaken_snoc (t : List (Tasks.Entry ServeSig)) (e : Tasks.Entry ServeSig) :
    sinceTaken (t ++ [e]) =
      if takes? e = true then [] else sinceTaken t ++ (accepts? e).toList := by
  simp [sinceTaken]

/-! ## Putting down -/

theorem putDown_nil : PutDown [] := by constructor <;> simp

/-- One after the other. -/
theorem PutDown.append {events events' : List Input} (h : PutDown events) (h' : PutDown events') :
    PutDown (events ++ events') := by
  constructor
  · intro p hp
    rw [List.filterMap_append, List.getLast?_append] at hp
    cases hlast : (events'.filterMap Input.pointer?).getLast? with
    | none =>
        rw [hlast] at hp
        exact h.buttons p hp
    | some q =>
        rw [hlast] at hp
        cases hp
        exact h'.buttons _ hlast
  · intro keysym
    rw [List.count_append, List.count_append, h.keys keysym, h'.keys keysym]

theorem putDown_flatMap {is : List Nat} {sent : Nat → List Input}
    (h : ∀ i ∈ is, PutDown (sent i)) : PutDown (is.flatMap sent) := by
  induction is with
  | nil => exact putDown_nil
  | cons i is ih =>
      rw [List.flatMap_cons]
      exact (h i List.mem_cons_self).append (ih fun j hj => h j (List.mem_cons_of_mem _ hj))

/-- The key events of a plan are those of its operations. -/
theorem count_inputs_key (ops : List RfbOp) (keysym : UInt32) (down : Bool) :
    (inputs ops).count (.key keysym down) = ops.count (.key keysym down) := by
  induction ops with
  | nil => rfl
  | cons op ops ih =>
      have hcons : inputs (op :: ops) = inputs [op] ++ inputs ops := inputs_append [op] ops
      have hone : (inputs [op]).count (.key keysym down) = [op].count (.key keysym down) := by
        cases op with
        | key keysym' down' => simp [inputs, RfbOp.input?, List.count_singleton]
        | pointer x y buttons => simp [inputs, RfbOp.input?]
        | sleep ms =>
            rw [inputs_of_not_input rfl]
            simp
      have hsplit : op :: ops = [op] ++ ops := rfl
      rw [hcons, hsplit, List.count_append, List.count_append, hone, ih]

/-- A whole plan puts down what it takes up. -/
theorem putDown_plan {action : ComputerAction} {ctx : PlanContext} {ops : List RfbOp}
    (h : plan action ctx = .ok ops) : PutDown (inputs ops) := by
  have hformed := (plan_wellFormed action ctx).2 ops h
  refine ⟨hformed.gesture.ends, fun keysym => ?_⟩
  rw [count_inputs_key, count_inputs_key, ← hformed.keys.level keysym]

/-! ## What a part says -/

namespace Part

/-- The role of a task of the session; every other task has none left. -/
def role : Part → Rfb.Role
  | session role => role
  | _ => .closer .done

/-- What a handler has taken up, once it is past its plan, is put down. -/
def Down : Part → Prop
  | acting _ _ _ _ (.after true) => False
  | ending _ done _ _ => PutDown (inputs done)
  | released _ done _ _ => PutDown (inputs done)
  | dropping _ done _ => PutDown (inputs done)
  | dropped _ done _ => PutDown (inputs done)
  | _ => True

/-- A handler has sent input that it has not stamped yet. -/
def Owes : Part → Prop
  | acting _ done op _ stage => inputs done ++ inHand op stage ≠ []
  | ending _ _ _ .stamp => True
  | _ => False

theorem Owes.holds {part : Part} (h : part.Owes) : part.Holds := by
  cases part with
  | acting action done op rest stage => trivial
  | ending action done rest finish => trivial
  | _ => exact h.elim

end Part

theorem begin_down {action : ComputerAction} {done rest : List RfbOp}
    (h : rest = [] → PutDown (inputs done)) : (Part.begin action done rest).Down := by
  cases rest with
  | nil => exact h rfl
  | cons op rest => trivial

/-- Input comes with a stamp. -/
theorem finish_of_inputs {done : List RfbOp} (rest : List RfbOp) (h : inputs done ≠ []) :
    Finish.of (done ++ rest) = .stamp := by
  obtain ⟨event, hevent⟩ := List.exists_mem_of_ne_nil _ h
  obtain ⟨op, hop, hinput⟩ := List.mem_filterMap.mp hevent
  unfold Finish.of
  refine if_pos (List.any_eq_true.mpr ⟨op, List.mem_append_left _ hop, ?_⟩)
  rw [RfbOp.isInput, hinput]
  rfl

theorem begin_owes {action : ComputerAction} {done rest : List RfbOp} (h : inputs done ≠ []) :
    (Part.begin action done rest).Owes := by
  cases rest with
  | nil =>
      have hfinish := finish_of_inputs [] h
      rw [List.append_nil] at hfinish
      rw [Part.begin, hfinish]
      trivial
  | cons op rest =>
      show inputs done ++ [] ≠ []
      rw [List.append_nil]
      exact h

namespace Part.Goes

variable {drag : DragPacing} {part part' : Part} {i : Nat} {o : ServeSig.Op} {r : ServeSig.Resp o}

/-- Only a task of the session ends it. -/
theorem quiet {o : Op} {r : o.Resp} (h : part.Goes drag (.inl (.inl o)) r part')
    (hpart : ∀ role, part ≠ .session role) :
    o ≠ .swapConnected ∧ o ≠ .closeCommands ∧ o ≠ .signalShutdown := by
  cases h with
  | session _ _ => exact absurd rfl (hpart _)
  | watches _ hwatches =>
      refine ⟨?_, ?_, ?_⟩ <;>
        (rintro rfl
         exact hwatches)
  | _ => exact ⟨by simp, by simp, by simp⟩

/-- Only a task of the session has a role in it. -/
theorem role (h : part.Goes drag o r part') (hpart : ∀ role, part ≠ .session role) :
    part'.role = part.role := by
  have hbegin : ∀ action done rest, (Part.begin action done rest).role = .closer .done := by
    intro action done rest
    cases rest <;> rfl
  cases h with
  | session _ _ => exact absurd rfl (hpart _)
  | watches _ _ => rfl
  | @sized action size =>
      rcases planned_cases drag action size with ⟨ops, hplan⟩ | ⟨e, hplan⟩ <;> rw [hplan] <;> rfl
  | begun => exact hbegin _ _ _
  | through _ => exact hbegin _ _ _
  | recorded => exact hbegin _ _ _
  | _ => rfl

/-- Input that is owed a stamp is owed it until it is stamped, or its handler
is dropped. -/
theorem owes (h : part.Goes drag o r part') (howes : part.Owes) (hstays : ¬ Drops ⟨i, o, r⟩)
    (hstamp : o ≠ .inl (.inr .stampInput)) : part'.Owes := by
  have hnil : ∀ {done : List RfbOp}, inputs done ++ [] ≠ [] → inputs done ≠ [] := by
    intro done hne
    rwa [List.append_nil] at hne
  cases h with
  | session _ _ => exact howes.elim
  | watches _ _ => exact howes
  | sized _ => exact howes.elim
  | begun => exact howes.elim
  | @resumed action done op rest => cases op <;> exact howes
  | asked connected => cases connected <;> exact howes
  | @pushed action done op rest event accepted hop =>
      cases accepted with
      | false => exact howes
      | true => exact List.append_ne_nil_of_left_ne_nil (hnil howes) _
  | slept => exact List.append_ne_nil_of_left_ne_nil (hnil howes) _
  | @through action done op rest hop =>
      refine begin_owes ?_
      rw [inputs_append]
      exact howes
  | @recorded action done x y buttons rest r =>
      refine begin_owes ?_
      rw [inputs_append]
      exact howes
  | @failed action done op rest =>
      rw [finish_of_inputs _ (hnil howes)]
      trivial
  | leaves _ => exact absurd trivial hstays
  | departs => exact absurd trivial hstays
  | stamped => exact absurd rfl hstamp
  | read _ => exact howes
  | released => exact howes.elim
  | dropped => exact howes.elim
  | _ => exact howes

/-- A plan that is through has put down what it took up, and so has one that
is dropped where it holds nothing. -/
theorem down (h : part.Goes drag o r part') (hdown : part.Down)
    (hplan : ∀ action ops, part.plan? = some (action, ops) → PutDown (inputs ops))
    (hserves : ¬ Refuses ⟨i, o, r⟩) (hdrop : Drops ⟨i, o, r⟩ → PutDown part.sent) :
    part'.Down := by
  cases h with
  | session _ _ => trivial
  | watches _ _ => exact hdown
  | @sized action size =>
      rcases planned_cases drag action size with ⟨ops, hplan⟩ | ⟨e, hplan⟩ <;> rw [hplan] <;>
        trivial
  | begun => exact begin_down (fun _ => putDown_nil)
  | @resumed action done op rest => cases op <;> trivial
  | asked connected =>
      cases connected with
      | false => exact absurd trivial hserves
      | true => trivial
  | pushed accepted _ =>
      cases accepted with
      | false => exact absurd trivial hserves
      | true => trivial
  | @through action done op rest hop =>
      refine begin_down (fun hrest => ?_)
      subst hrest
      exact hplan action (done ++ [op]) rfl
  | @recorded action done x y buttons rest r =>
      refine begin_down (fun hrest => ?_)
      subst hrest
      exact hplan action (done ++ [.pointer x y buttons]) rfl
  | failed => exact hdown.elim
  | @leaves action done op rest stage hstage =>
      rcases hstage with rfl | rfl
      · have hput : PutDown (inputs done ++ []) := hdrop trivial
        rwa [List.append_nil] at hput
      · exact hdown.elim
  | @departs action done op rest =>
      have hput : PutDown (inputs done ++ inputs [op]) := hdrop trivial
      rwa [← inputs_append] at hput
  | stamped => exact hdown
  | read _ => exact hdown
  | released => exact hdown
  | dropped => exact hdown
  | _ => trivial

end Part.Goes

/-! ## The invariant -/

/-- While the session is connected, every handler that is past its plan has
put down what it took up, and input without a record is owed one. -/
structure Tidied (jobs : List Job) (drag : DragPacing) (γ : Nat → Part)
    (t : List (Tasks.Entry ServeSig)) (c : Tasks ServeSig Left Reply Desk Own) : Prop where
  turns : Turns γ t c
  planned : Planned jobs drag γ t
  shut : Shut (fun j => (γ j).role) c.shared.1.1
  down : c.shared.1.1.connected = true → ∀ i, (γ i).Down
  owed : c.shared.1.1.connected = true → sinceTaken t ≠ [] →
    c.shared.1.2.lastInput.isSome = true ∨ ∃ i, (γ i).Owes

section

variable {continuous : Bool} {jobs : List Job} {drag : DragPacing} {γ : Nat → Part}
  {t : List (Tasks.Entry ServeSig)} {c : Tasks ServeSig Left Reply Desk Own} {i : Nat} {m : Choice}
  {o : ServeSig.Op} {k : ServeSig.Resp o → HandlerTask Reply} {own own' : Own}
  {r : ServeSig.Resp o} {s s' : Desk} {part part' : Part}

/-- What an operation beside the session's own leaves of its flags. -/
theorem flags_after (hgoes : part.Goes drag o r part') (hpart : ∀ role, part ≠ .session role)
    (hdoes : serveDoes o m s own = some (r, s', own')) :
    s'.1.1.connected = s.1.1.connected ∧ s'.1.1.commandsOpen = s.1.1.commandsOpen ∧
      s'.1.1.shutdown = s.1.1.shutdown := by
  cases o with
  | inr o =>
      rw [(serveDoes_inr hdoes).2.1]
      exact ⟨rfl, rfl, rfl⟩
  | inl o =>
      cases o with
      | inr o =>
          rw [(serveDoes_app hdoes).2.1]
          exact ⟨rfl, rfl, rfl⟩
      | inl o =>
          obtain ⟨hswap, hclose, hsignal⟩ := hgoes.quiet hpart
          rw [sessionDoes_after (serveDoes_session hdoes).1]
          exact ⟨after_connected hswap r _, after_commandsOpen hclose r _,
            after_shutdown hsignal r _⟩

/-- Nothing connects the session of a server again. -/
theorem connected_before (hdoes : serveDoes o m s own = some (r, s', own'))
    (hconnected : s'.1.1.connected = true) : s.1.1.connected = true := by
  cases o with
  | inr o => rwa [(serveDoes_inr hdoes).2.1] at hconnected
  | inl o =>
      cases o with
      | inr o => rwa [(serveDoes_app hdoes).2.1] at hconnected
      | inl o =>
          rw [sessionDoes_after (serveDoes_session hdoes).1] at hconnected
          by_contra hdead
          rw [connected_after (Bool.not_eq_true _ ▸ hdead) r] at hconnected
          cases hconnected

/-- A session that is connected accepts what it is sent. -/
theorem not_refuses {roles : Nat → Rfb.Role} (hshut : Shut roles s.1.1)
    (hconnected : s.1.1.connected = true) (hdoes : serveDoes o m s own = some (r, s', own')) :
    ¬ Refuses ⟨i, o, r⟩ := by
  intro hrefuses
  unfold Refuses at hrefuses
  split at hrefuses
  · next heq =>
      cases heq
      obtain ⟨hload, _⟩ := Prod.mk.inj (Option.some.inj (serveDoes_session hdoes).1)
      have hdead : s.1.1.connected = false := hload
      rw [hdead] at hconnected
      cases hconnected
  · next heq =>
      cases heq
      have hclosed := push_answer (serveDoes_session hdoes).1
      rw [hshut.closed hclosed.symm] at hconnected
      cases hconnected
  · exact hrefuses

/-- A task of the session moves in its role. -/
theorem role_moved {role : Rfb.Role} {o : Op} {r : o.Resp} (hpart : γ i = .session role) :
    (fun j => (Function.update γ i ((γ i).next continuous drag (.inl (.inl o)) r) j).role) =
      Tasks.moved (protocol continuous) (fun j => (γ j).role) i o r := by
  funext j
  by_cases hji : j = i
  · rw [hji, Tasks.moved_self, Function.update_self, hpart]
    rfl
  · rw [Tasks.moved_of_ne _ _ hji, Function.update_of_ne hji]

theorem shut_next (h : Shut (fun j => (γ j).role) s.1.1) (hmay : (γ i).may o)
    (hdoes : serveDoes o m s own = some (r, s', own')) :
    Shut (fun j => (Function.update γ i ((γ i).next continuous drag o r) j).role) s'.1.1 := by
  by_cases hpart : ∃ role, γ i = .session role
  · obtain ⟨role, hpart⟩ := hpart
    have hrole : (γ i).role = role := by
      rw [hpart]
      rfl
    have hown := hmay
    rw [hpart] at hown
    obtain ⟨o', rfl, hown⟩ := hown
    refine Eq.mpr (congrArg (fun roles => Shut roles s'.1.1) (role_moved hpart)) ?_
    exact shut_step h (show ((γ i).role).may o' from hrole ▸ hown) (serveDoes_session hdoes).1
  · have hpart : ∀ role, γ i ≠ .session role := fun role heq => hpart ⟨role, heq⟩
    have hgoes : (γ i).Goes drag o r ((γ i).next continuous drag o r) := Part.goes hmay r
    have hsame : (fun j => (Function.update γ i ((γ i).next continuous drag o r) j).role) =
        fun j => (γ j).role := by
      funext j
      by_cases hji : j = i
      · rw [hji, Function.update_self, hgoes.role hpart]
      · rw [Function.update_of_ne hji]
    obtain ⟨hconnected, hopen, hshutdown⟩ := flags_after hgoes hpart hdoes
    rw [hsame]
    refine ⟨fun hdown => ?_, fun hclosed => ?_, fun j hj => ?_⟩
    · rw [hconnected]
      exact h.shutdown (hshutdown ▸ hdown)
    · rw [hconnected]
      exact h.closed (hopen ▸ hclosed)
    · rw [hconnected]
      exact h.swapped j hj

/-- A handler that is dropped while the session is connected has put down
what it took up, and left no input without a record. -/
theorem tidy_of_drops (htidy : Tidy t c i m) (htask : c.tasks[i]? = some (.step o k, own))
    (hdoes : serveDoes o m c.shared own = some (r, s', own'))
    (hconnected : c.shared.1.1.connected = true) (hdrops : Drops ⟨i, o, r⟩) :
    PutDown (sentBy i t) ∧ Stamped t c := by
  unfold Drops at hdrops
  split at hdrops
  · next heq =>
      cases heq
      obtain ⟨hexec, _, _⟩ := serveDoes_inr hdoes
      obtain ⟨helapsed, _⟩ := Prod.mk.inj (Option.some.inj hexec)
      exact htidy.leaves k own htask helapsed hconnected
  · exact hdrops.elim

theorem down_step (h : Tidied jobs drag γ t c) (htidy : Tidy t c i m)
    (htask : c.tasks[i]? = some (.step o k, own)) (hgoes : (γ i).Goes drag o r part')
    (hdoes : serveDoes o m c.shared own = some (r, s', own'))
    (hconnected : c.shared.1.1.connected = true) (j : Nat) :
    (Function.update γ i part' j).Down := by
  by_cases hji : j = i
  · subst hji
    rw [Function.update_self]
    refine hgoes.down (i := j) (h.down hconnected j) (fun action ops hplan => ?_)
      (not_refuses h.shut hconnected hdoes) (fun hdrops => ?_)
    · obtain ⟨_, _, hok⟩ := h.planned.plans j action ops hplan
      exact putDown_plan hok
    · rw [← h.turns.sent j]
      exact (tidy_of_drops htidy htask hdoes hconnected hdrops).1
  · rw [Function.update_of_ne hji]
    exact h.down hconnected j

theorem owed_step (h : Tidied jobs drag γ t c) (htidy : Tidy t c i m)
    (htask : c.tasks[i]? = some (.step o k, own)) (hgoes : (γ i).Goes drag o r part')
    (hdoes : serveDoes o m c.shared own = some (r, s', own'))
    (hconnected : c.shared.1.1.connected = true) (hsince : sinceTaken (t ++ [⟨i, o, r⟩]) ≠ []) :
    s'.1.2.lastInput.isSome = true ∨ ∃ j, (Function.update γ i part' j).Owes := by
  have hself : Function.update γ i part' i = part' := Function.update_self _ _ _
  rw [sinceTaken_snoc] at hsince
  by_cases htake : takes? ⟨i, o, r⟩ = true
  · rw [if_pos htake] at hsince
    exact absurd rfl hsince
  · rw [if_neg htake] at hsince
    by_cases hstamp : o = .inl (.inr .stampInput)
    · subst hstamp
      obtain ⟨hexec, _, _⟩ := serveDoes_app hdoes
      obtain ⟨_, heq⟩ := Prod.mk.inj (Option.some.inj hexec)
      rw [← heq]
      exact .inl rfl
    · have hother : o ≠ .inl (.inr .takeLastInput) := by
        rintro rfl
        exact htake rfl
      have hlast := lastInput_after hstamp hother hdoes
      cases haccepts : accepts? ⟨i, o, r⟩ with
      | some event =>
          -- the handler that sends it owes the stamp
          obtain ⟨action, done, op, rest, hop, _, hpart⟩ := hgoes.accepts (h.turns.mute i) haccepts
          refine .inr ⟨i, ?_⟩
          rw [hself, hpart]
          show inputs done ++ inputs [op] ≠ []
          simp [inputs, hop]
      | none =>
          rw [haccepts, Option.toList_none, List.append_nil] at hsince
          rw [hlast]
          by_cases hdrops : Drops ⟨i, o, r⟩
          · exact .inl ((tidy_of_drops htidy htask hdoes hconnected hdrops).2 hsince)
          · rcases h.owed hconnected hsince with hstamped | ⟨j, howes⟩
            · exact .inl hstamped
            · refine .inr ⟨j, ?_⟩
              by_cases hji : j = i
              · subst hji
                rw [hself]
                exact hgoes.owes (i := j) howes hdrops hstamp
              · rw [Function.update_of_ne hji]
                exact howes

theorem tidied_step (h : Tidied jobs drag γ t c) (htidy : Tidy t c i m)
    (htask : c.tasks[i]? = some (.step o k, own)) (hmay : (γ i).may o)
    (hdoes : serveDoes o m c.shared own = some (r, s', own')) :
    Tidied jobs drag (Function.update γ i ((γ i).next continuous drag o r)) (t ++ [⟨i, o, r⟩])
      ⟨s', c.tasks.set i (k r, own')⟩ := by
  have hgoes : (γ i).Goes drag o r ((γ i).next continuous drag o r) := Part.goes hmay r
  exact {
    turns := turns_step h.turns hgoes hdoes
    planned := planned_step h.planned hgoes
    shut := shut_next h.shut hmay hdoes
    down := fun hconnected =>
      down_step h htidy htask hgoes hdoes (connected_before hdoes hconnected)
    owed := fun hconnected =>
      owed_step h htidy htask hgoes hdoes (connected_before hdoes hconnected) }

end

/-! ## Runs -/

section

variable {z : Decompress} {width height : UInt16} {name : String} {continuous : Bool} {n m : Nat}
  {d : Decoders z} {time : Duration} {config : HandlerConfig} {jobs : List Job}
  {t : List (Tasks.Entry ServeSig)} {c : Tasks ServeSig Left Reply Desk Own}

/-- Nothing has been taken up or ended at the start. -/
theorem serviceParts_down (continuous : Bool) (jobs : List Job) (i : Nat) :
    (serviceParts continuous jobs i).Down ∧ ¬ (serviceParts continuous jobs i).role.Swapped := by
  match i with
  | 0 => exact ⟨trivial, fun h => h⟩
  | 1 => exact ⟨trivial, fun h => h⟩
  | 2 => exact ⟨trivial, fun h => h⟩
  | j + 3 =>
      simp only [serviceParts]
      cases jobs[j]? with
      | none => exact ⟨trivial, fun h => h⟩
      | some job => cases job <;> exact ⟨trivial, fun h => h⟩

theorem tidied_start (z : Decompress) (width height : UInt16) (name : String) (continuous : Bool)
    (n m : Nat) (d : Decoders z) (time : Duration) (config : HandlerConfig) (jobs : List Job) :
    Tidied jobs config.drag (serviceParts continuous jobs) []
      (service width height name continuous n m d time config jobs) where
  turns := turns_start width height name continuous n m d time config jobs
  planned := (braided_start z width height name continuous n m d time config jobs).planned
  shut := {
    shutdown := fun h => by cases h
    closed := fun h => by cases h
    swapped := fun i h => ((serviceParts_down continuous jobs i).2 h).elim }
  down _ i := (serviceParts_down continuous jobs i).1
  owed _ h := absurd rfl h

/-- The invariant holds after every run. -/
theorem tidied_runs (h : Tasks.Runs serveDoes Tidy
    (service width height name continuous n m d time config jobs) t c) :
    ∃ γ, Tasks.Roles (parts continuous config.drag) Part.Ended γ c ∧
      Tidied jobs config.drag γ t c :=
  service_parted h (tidied_start z width height name continuous n m d time config jobs)
    (fun _ _ _ _ _ _ _ _ _ _ _ htidy h htask hmay hdoes => tidied_step h htidy htask hmay hdoes)

/-- **The hands are put down**, in every run in which a handler that is
dropped has put down what it took up and leaves no input without a record:
whenever the hands are free and the session is connected, the last
PointerEvent holds no button, every key that went down has come up, and input
since a screenshot last took the record is on record. -/
theorem hands_put_down (h : Tasks.Runs serveDoes Tidy
    (service width height name continuous n m d time config jobs) t c)
    (hfree : c.shared.2.held = false) (hconnected : c.shared.1.1.connected = true) :
    HandsDown t c := by
  obtain ⟨γ, _, h⟩ := tidied_runs h
  have hnobody : ∀ i, ¬ (γ i).Holds := by
    intro i hi
    rw [h.turns.held.mpr ⟨i, hi⟩] at hfree
    cases hfree
  constructor
  · rw [h.turns.received]
    refine putDown_flatMap (fun i hi => ?_)
    have hacquired := (h.turns.turns i).mp hi
    have hdown := h.down hconnected i
    rw [h.turns.sent i]
    cases hpart : γ i with
    | released action done rest cursor =>
        rw [hpart] at hdown
        exact hdown
    | dropped action done rest =>
        rw [hpart] at hdown
        exact hdown
    | acting action done op rest stage => exact absurd (by rw [hpart]; trivial) (hnobody i)
    | ending action done rest finish => exact absurd (by rw [hpart]; trivial) (hnobody i)
    | dropping action done rest => exact absurd (by rw [hpart]; trivial) (hnobody i)
    | _ =>
        rw [hpart] at hacquired
        exact hacquired.elim
  · intro hsince
    rcases h.owed hconnected hsince with hlast | ⟨i, howes⟩
    · exact hlast
    · exact absurd howes.holds (hnobody i)

end

/-! ## A handler that is dropped -/

/-- Two requests: a move and a drag. -/
def moveAndDrag : List Job :=
  [.computer 0 (.mouseMove (3, 4)), .computer 0 (.leftClickDrag (1, 1) (3, 4))]

/-- A server with a request to move the pointer, and one to drag. -/
def dragging : Tasks ServeSig Left Reply Desk Own :=
  service 8 8 "desktop" false 0 0 (Decoders.new stored) 0
    ⟨⟨500000000, 5000000000⟩, ⟨20, 20, 150⟩⟩ moveAndDrag

/-- A handler is dropped where it waits. -/
def leaving (i : Nat) : List (Nat × Choice) := [(i, ⟨.ok [], true⟩)]

/-- A step that drops only a handler that has sent nothing, where all input is
on record. -/
def tidy? (t : List (Tasks.Entry ServeSig)) (c : Tasks ServeSig Left Reply Desk Own) (i : Nat)
    (m : Choice) : Bool :=
  !m.elapsed || ((sentBy i t).isEmpty && c.shared.1.2.lastInput.isSome)

theorem tidy_of_check (t : List (Tasks.Entry ServeSig)) (c : Tasks ServeSig Left Reply Desk Own)
    (i : Nat) (m : Choice) (h : tidy? t c i m = true) : Tidy t c i m where
  leaves k own _ helapsed _ := by
    rw [tidy?, helapsed, Bool.not_true, Bool.false_or, Bool.and_eq_true] at h
    obtain ⟨hsent, hlast⟩ := h
    rw [List.isEmpty_iff.mp hsent]
    exact ⟨putDown_nil, fun _ => hlast⟩

/-- The pointer is moved; the drag has the hands and is dropped before it
begins. -/
def droppedEarly : List (Nat × Choice) :=
  moves 3 (List.replicate 10 []) ++ moves 4 [[], []] ++ leaving 4 ++ moves 4 [[]]

theorem hands_put_down_early :
    ∃ t c, Tasks.Runs serveDoes Tidy dragging t c ∧ acquired t = [3, 4] ∧
      received t = [.pointer 3 4 0] ∧ HandsDown t c := by
  have hend : (dragging.record tidy? serveDoes droppedEarly []).map
      (fun e => (acquired e.1, received e.1, e.2.shared.2.held, e.2.shared.1.1.connected)) =
        some ([3, 4], [.pointer 3 4 0], false, true) := by
    decide +kernel
  obtain ⟨⟨t, c⟩, hrecord, heq⟩ := Option.map_eq_some_iff.mp hend
  obtain ⟨hacquired, heq⟩ := Prod.mk.inj heq
  obtain ⟨hreceived, heq⟩ := Prod.mk.inj heq
  obtain ⟨hfree, hconnected⟩ := Prod.mk.inj heq
  have hrun := Tasks.runs_record tidy_of_check hrecord .start
  exact ⟨t, c, hrun, hacquired, hreceived, hands_put_down hrun hfree hconnected⟩

/-- The drag is dropped before its dwell, with the button down. -/
def droppedHolding : List (Nat × Choice) :=
  moves 4 (List.replicate 12 []) ++ leaving 4 ++ moves 4 [[]]

/-- The hands are free, and the button stays down. -/
theorem not_hands_put_down :
    ¬ ∀ t c, Tasks.Runs serveDoes Tasks.Anyhow dragging t c → c.shared.2.held = false →
      c.shared.1.1.connected = true → HandsDown t c := by
  intro hall
  have hend : (dragging.record (fun _ _ _ _ => true) serveDoes droppedHolding []).map
      (fun e => (received e.1, e.2.shared.2.held, e.2.shared.1.1.connected)) =
        some ([.pointer 1 1 0, .pointer 1 1 1], false, true) := by
    decide +kernel
  obtain ⟨⟨t, c⟩, hrecord, heq⟩ := Option.map_eq_some_iff.mp hend
  obtain ⟨hreceived, heq⟩ := Prod.mk.inj heq
  obtain ⟨hfree, hconnected⟩ := Prod.mk.inj heq
  have hdown := (hall t c (Tasks.runs_record (fun _ _ _ _ _ => trivial) hrecord .start) hfree
    hconnected).down
  rw [hreceived] at hdown
  have hbutton : buttonLeft = 0 := hdown.buttons ((1, 1), buttonLeft) rfl
  exact absurd hbutton (by decide)

end Bolide.Server
