/-
Bolide.Rfb.HandleTheorems — what each operation of the session changes.

A field of the shared state is changed by one or two operations and left
alone by every other. Each lemma says so of one field, for every operation
at once, so that an invariant of runs never looks at the operations that do
not concern it.
-/
import Bolide.Rfb.Handle

namespace Bolide.Rfb

open Lib

/-! ## The shared state -/

/-- The shared state after an operation that was answered with `r`: a wait
for a command that the shutdown ends takes none. -/
def Op.after (o : Op) (r : o.Resp) (i : Inner) : Inner :=
  match o, r with
  | .pop, none => i
  | o, _ => (execInner o i).2

/-- A task among others does to the shared state what it does alone. -/
theorem sessionDoes_after {o : Op} {m : Choice} {i i' : Inner} {own own' : Own} {r : o.Resp}
    (h : sessionDoes o m i own = some (r, i', own')) : i' = o.after r i := by
  cases o with
  | fill n =>
      simp only [sessionDoes] at h
      split at h
      · split at h
        · cases h
          rfl
        · cases h
      · cases h
        rfl
  | pollWrite bytes =>
      simp only [sessionDoes] at h
      split at h
      · split at h
        · cases h
          rfl
        · cases h
      · cases h
        rfl
  | pop =>
      simp only [sessionDoes] at h
      split at h
      · split at h
        · cases h
          rfl
        · cases h
      · split at h
        · cases h
        · next command rest hcommands =>
            cases h
            simp only [Op.after, execInner, hcommands, List.tail_cons]
  | recv =>
      simp only [sessionDoes] at h
      obtain ⟨next, _, h⟩ := Option.bind_eq_some_iff.mp h
      split at h
      · cases h
        rfl
      · split at h
        · cases h
          rfl
        · cases h
  | _ =>
      simp only [sessionDoes] at h
      cases h
      rfl

/-- A wait for a command takes the first one, or the shutdown has ended it. -/
theorem pop_cases {m : Choice} {i i' : Inner} {own own' : Own} {got : Option Command}
    (h : sessionDoes .pop m i own = some (got, i', own')) :
    (∃ command rest, i.commands = command :: rest ∧ got = some command ∧
        i' = { i with commands := rest }) ∨
      (i.shutdown = true ∧ got = none ∧ i' = i) := by
  simp only [sessionDoes] at h
  split at h
  · split at h
    · next hdown =>
        cases h
        exact .inr ⟨hdown, rfl, rfl⟩
    · cases h
  · split at h
    · cases h
    · next command rest hcommands =>
        cases h
        exact .inl ⟨command, rest, hcommands, rfl, rfl⟩

/-- A task alone does to the shared state what it does among others. -/
theorem exec_inner (ending : Ending) (timeout : Duration) (o : Op) (w : World) :
    (exec ending timeout o w).2.inner = (execInner o w.inner).2 := by
  cases o <;> rfl

/-- The operations that change what the state mutex guards. -/
def Op.AltersState : Op → Prop
  | .draw _ => True
  | .desktopSize _ _ => True
  | .setPainted => True
  | .setCutText _ => True
  | _ => False

theorem after_state {o : Op} (h : ¬ o.AltersState) (r : o.Resp) (i : Inner) :
    (o.after r i).state = i.state := by
  cases o with
  | push command =>
      simp only [Op.after, execInner]
      split <;> rfl
  | pop => cases r <;> rfl
  | draw f => exact absurd trivial h
  | desktopSize width height => exact absurd trivial h
  | setPainted => exact absurd trivial h
  | setCutText text => exact absurd trivial h
  | _ => rfl

/-- What an operation sends. -/
def Op.emits : Op → List ServerEvent
  | .emit event => [event]
  | _ => []

theorem after_events (o : Op) (r : o.Resp) (i : Inner) :
    (o.after r i).events = i.events ++ o.emits := by
  cases o with
  | emit event => rfl
  | draw f =>
      simp only [Op.after, execInner, Op.emits, List.append_nil]
      split <;> rfl
  | push command =>
      simp only [Op.after, execInner, Op.emits, List.append_nil]
      split <;> rfl
  | pop => cases r <;> exact (List.append_nil _).symm
  | _ => exact (List.append_nil _).symm

/-- What an operation leaves of the painted flag. -/
def Op.paints (painted : Bool) : Op → Bool
  | .setPainted => true
  | .desktopSize _ _ => false
  | _ => painted

theorem after_painted (o : Op) (r : o.Resp) (i : Inner) :
    (o.after r i).state.painted = o.paints i.state.painted := by
  cases o with
  | draw f =>
      simp only [Op.after, execInner, Op.paints]
      split <;> rfl
  | push command =>
      simp only [Op.after, execInner, Op.paints]
      split <;> rfl
  | pop => cases r <;> rfl
  | _ => rfl

/-- Updates are counted when they begin. -/
theorem after_updatesBegun {o : Op} (h : o ≠ .beginUpdate) (r : o.Resp) (i : Inner) :
    (o.after r i).updatesBegun = i.updatesBegun := by
  cases o with
  | draw f =>
      simp only [Op.after, execInner]
      split <;> rfl
  | push command =>
      simp only [Op.after, execInner]
      split <;> rfl
  | pop => cases r <;> rfl
  | beginUpdate => exact absurd rfl h
  | _ => rfl

theorem after_lastPainted {o : Op} (h : ∀ n, o ≠ .storeLastPainted n) (r : o.Resp) (i : Inner) :
    (o.after r i).lastPaintedUpdate = i.lastPaintedUpdate := by
  cases o with
  | draw f =>
      simp only [Op.after, execInner]
      split <;> rfl
  | push command =>
      simp only [Op.after, execInner]
      split <;> rfl
  | pop => cases r <;> rfl
  | storeLastPainted n => exact absurd rfl (h n)
  | _ => rfl

theorem after_connected {o : Op} (h : o ≠ .swapConnected) (r : o.Resp) (i : Inner) :
    (o.after r i).connected = i.connected := by
  cases o with
  | draw f =>
      simp only [Op.after, execInner]
      split <;> rfl
  | push command =>
      simp only [Op.after, execInner]
      split <;> rfl
  | pop => cases r <;> rfl
  | swapConnected => exact absurd rfl h
  | _ => rfl

theorem after_needsFull {o : Op} (hstore : ∀ full, o ≠ .storeNeedsFull full)
    (hswap : o ≠ .swapNeedsFull) (r : o.Resp) (i : Inner) :
    (o.after r i).needsFull = i.needsFull := by
  cases o with
  | draw f =>
      simp only [Op.after, execInner]
      split <;> rfl
  | push command =>
      simp only [Op.after, execInner]
      split <;> rfl
  | pop => cases r <;> rfl
  | storeNeedsFull full => exact absurd rfl (hstore full)
  | swapNeedsFull => exact absurd rfl hswap
  | _ => rfl

theorem after_commandsOpen {o : Op} (h : o ≠ .closeCommands) (r : o.Resp) (i : Inner) :
    (o.after r i).commandsOpen = i.commandsOpen := by
  cases o with
  | draw f =>
      simp only [Op.after, execInner]
      split <;> rfl
  | push command =>
      simp only [Op.after, execInner]
      split <;> rfl
  | pop => cases r <;> rfl
  | closeCommands => exact absurd rfl h
  | _ => rfl

theorem after_shutdown {o : Op} (h : o ≠ .signalShutdown) (r : o.Resp) (i : Inner) :
    (o.after r i).shutdown = i.shutdown := by
  cases o with
  | draw f =>
      simp only [Op.after, execInner]
      split <;> rfl
  | push command =>
      simp only [Op.after, execInner]
      split <;> rfl
  | pop => cases r <;> rfl
  | signalShutdown => exact absurd rfl h
  | _ => rfl

/-- Nothing connects a session again. -/
theorem connected_after {o : Op} {i : Inner} (h : i.connected = false) (r : o.Resp) :
    (o.after r i).connected = false := by
  by_cases hswap : o = .swapConnected
  · subst hswap
    rfl
  · rw [after_connected hswap]
    exact h

/-- What an operation adds to the queue: a command that is accepted. -/
def Op.queues : (o : Op) → o.Resp → List Command
  | .push command, true => [command]
  | _, _ => []

/-- Commands are taken off the front of the queue, and added to its end. -/
theorem sessionDoes_commands {o : Op} {m : Choice} {i i' : Inner} {own own' : Own} {r : o.Resp}
    (h : sessionDoes o m i own = some (r, i', own')) (hpop : o ≠ .pop) :
    i'.commands = i.commands ++ o.queues r := by
  rw [sessionDoes_after h]
  cases o with
  | draw f =>
      simp only [Op.after, execInner, Op.queues, List.append_nil]
      split <;> rfl
  | push command =>
      simp only [sessionDoes, execInner] at h
      simp only [Op.after, execInner]
      split at h
      · next hopen =>
          cases h
          rw [if_pos hopen]
          rfl
      · next hopen =>
          cases h
          rw [if_neg hopen]
          exact (List.append_nil _).symm
  | pop => exact absurd rfl hpop
  | _ => exact (List.append_nil _).symm

/-- A command is accepted exactly while the queue is open. -/
theorem push_answer {command : Command} {m : Choice} {i i' : Inner} {own own' : Own} {r : Bool}
    (h : sessionDoes (.push command) m i own = some (r, i', own')) : r = i.commandsOpen := by
  simp only [sessionDoes, execInner] at h
  split at h
  · next hopen =>
      cases h
      exact hopen.symm
  · next hopen =>
      cases h
      exact (Bool.not_eq_true _ ▸ hopen).symm

/-- The size of the screen. -/
def Inner.size (i : Inner) : UInt16 × UInt16 := (i.state.fb.width, i.state.fb.height)

/-- Only a DesktopSize rect changes the size of the screen. -/
theorem after_size {o : Op} (hresize : ∀ w h, o ≠ .desktopSize w h)
    (hdraw : ∀ f, o = .draw f → KeepsSize f) (r : o.Resp) (i : Inner) :
    (o.after r i).size = i.size := by
  cases o with
  | draw f =>
      simp only [Op.after, execInner]
      split
      · next fb hfb =>
          obtain ⟨hwidth, hheight⟩ := hdraw f rfl _ _ hfb
          simp only [Inner.size, Inner.setFb, hwidth, hheight]
      · rfl
  | push command =>
      simp only [Op.after, execInner]
      split <;> rfl
  | pop => cases r <;> rfl
  | desktopSize w h => exact absurd rfl (hresize w h)
  | _ => rfl

/-! ## The task's own state -/

/-- A wait for an event: it was handed one, or there was none. -/
theorem recv_cases {m : Choice} {i i' : Inner} {own own' : Own} {woken : Wakeup}
    (h : sessionDoes .recv m i own = some (woken, i', own')) :
    (∃ next next' got, own.next = some next ∧
        Broadcast.recv eventCapacity i.events next = some (got, next') ∧
        woken = .received got ∧ own' = { own with next := some next' }) ∨
      (own.unread i = [] ∧ woken = .elapsed ∧ own' = own) := by
  simp only [sessionDoes] at h
  obtain ⟨next, hnext, h⟩ := Option.bind_eq_some_iff.mp h
  split at h
  · next got next' hrecv =>
      cases h
      exact .inl ⟨next, next', got, hnext, hrecv, rfl, rfl⟩
  · next hrecv =>
      split at h
      · cases h
        refine .inr ⟨?_, rfl, rfl⟩
        rw [Own.unread, hnext]
        exact (Broadcast.recv_eq_none (by decide)).mp hrecv
      · cases h

/-- The receiver is at an event of the channel, or past the last one. -/
def Own.Subscribed (own : Own) (i : Inner) : Prop :=
  ∃ next, own.next = some next ∧ next ≤ i.events.length

/-- What a task can be handed after an operation it could be before it, or
it has just been sent. -/
theorem mem_unread_after {o : Op} {r : o.Resp} {i : Inner} {own : Own} {e : ServerEvent}
    (hsub : own.Subscribed i) (he : e ∈ own.unread (o.after r i)) :
    e ∈ own.unread i ∨ o = .emit e := by
  obtain ⟨next, hnext, hle⟩ := hsub
  simp only [Own.unread, hnext, after_events] at he ⊢
  cases o with
  | emit event =>
      rcases Broadcast.mem_unread_send (by decide) hle he with he | rfl
      · exact .inl he
      · exact .inr rfl
  | _ =>
      simp only [Op.emits, List.append_nil] at he
      exact .inl he

theorem Own.Subscribed.after {o : Op} {r : o.Resp} {i : Inner} {own : Own}
    (hsub : own.Subscribed i) : own.Subscribed (o.after r i) := by
  obtain ⟨next, hnext, hle⟩ := hsub
  refine ⟨next, hnext, ?_⟩
  rw [after_events, List.length_append]
  omega

/-! ## Schedules -/

/-- The moves of one task, with what its connection answers at each. -/
def moves (i : Nat) (arrivals : List (List UInt8)) : List (Nat × Choice) :=
  arrivals.map (fun bytes => (i, ⟨.ok bytes, false⟩))

/-- The reader reads an update that paints the one pixel of a 1x1 screen, up
to its last rect. -/
def paints : List (Nat × Choice) :=
  moves 0 [[], [0], [], [], [0], [0, 1], [0, 0], [0, 0], [0, 1], [0, 1], [0, 0, 0, 0],
    [9, 8, 7, 6], [], []]

/-- The reader announces a paint. -/
def announces : List (Nat × Choice) := moves 0 [[], [], [], []]

/-- The reader handles a DesktopSize rect of 2x1, the only one of its update. -/
def resizes : List (Nat × Choice) :=
  moves 0 [[], [0], [], [], [0], [0, 1], [0, 0], [0, 0], [0, 2], [0, 1], [255, 255, 255, 33],
    [], [], []]

end Bolide.Rfb
