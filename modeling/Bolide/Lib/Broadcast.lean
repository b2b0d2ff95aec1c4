/-
Bolide.Lib.Broadcast — a broadcast channel that keeps its last events.

The channel is the list of every event sent on it, and a receiver is the
position of the next event it has not been given. The channel keeps the last
`capacity` events. A receiver that has fallen behind them is told once how
many it missed, and goes on with the oldest event kept.

`unread` is what a receiver can still be handed. The lemmas say how each
operation changes it: a new receiver has nothing to read, a receive takes
the head, being told of a lag takes nothing, and a send adds the event at
the end and may push the oldest one out.
-/
import Mathlib

namespace Lib.Broadcast

variable {E : Type} {capacity next : Nat} {sent : List E}

/-- What a receive returns. -/
inductive Received (E : Type) where
  | event (e : E)
  | lagged (missed : Nat)
  deriving DecidableEq, Repr

/-- The events a receiver can still be handed. -/
def unread (capacity : Nat) (sent : List E) (next : Nat) : List E :=
  sent.drop (max next (sent.length - capacity))

/-- A receive that does not wait, and the position after it. -/
def recv (capacity : Nat) (sent : List E) (next : Nat) : Option (Received E × Nat) :=
  if next + capacity < sent.length then
    some (.lagged (sent.length - capacity - next), sent.length - capacity)
  else (sent[next]?).map (fun e => (.event e, next + 1))

/-- A new receiver has nothing to read. -/
theorem unread_subscribe (capacity : Nat) (sent : List E) :
    unread capacity sent sent.length = [] := by
  simp [unread]

/-- A received event was the oldest one unread. -/
theorem unread_of_event {e : E} {next' : Nat}
    (h : recv capacity sent next = some (.event e, next')) :
    unread capacity sent next = e :: unread capacity sent next' := by
  rw [recv] at h
  split at h
  · cases h
  · next hlag =>
      rw [Option.map_eq_some_iff] at h
      obtain ⟨e', hget, h⟩ := h
      cases h
      obtain ⟨hlt, rfl⟩ := List.getElem?_eq_some_iff.mp hget
      rw [unread, unread, max_eq_left (by omega), max_eq_left (by omega)]
      exact (List.drop_eq_getElem_cons hlt)

/-- Being told of a lag loses nothing more. -/
theorem unread_of_lagged {missed next' : Nat}
    (h : recv capacity sent next = some (.lagged missed, next')) :
    unread capacity sent next' = unread capacity sent next := by
  rw [recv] at h
  split at h
  · next hlag =>
      cases h
      rw [unread, unread, max_self, max_eq_right (by omega)]
  · next hlag =>
      rw [Option.map_eq_some_iff] at h
      obtain ⟨_, _, h⟩ := h
      cases h

/-- A receiver never gets ahead of the channel. -/
theorem recv_le {got : Received E} {next' : Nat}
    (h : recv capacity sent next = some (got, next')) :
    next' ≤ sent.length := by
  rw [recv] at h
  split at h
  · cases h
    omega
  · rw [Option.map_eq_some_iff] at h
    obtain ⟨e, hget, h⟩ := h
    cases h
    have := (List.getElem?_eq_some_iff.mp hget).1
    omega

/-- A receive waits exactly when nothing is unread. -/
theorem recv_eq_none (hcap : 0 < capacity) :
    recv capacity sent next = none ↔ unread capacity sent next = [] := by
  rw [recv, unread, List.drop_eq_nil_iff]
  split
  · next hlag =>
      constructor
      · intro h
        cases h
      · omega
  · next hlag =>
      rw [Option.map_eq_none_iff, List.getElem?_eq_none_iff]
      omega

/-- A send adds its event, and pushes the oldest unread one out of a full
channel. -/
theorem unread_send {e : E} (hcap : 0 < capacity) (hnext : next ≤ sent.length) :
    unread capacity (sent ++ [e]) next =
      (if (unread capacity sent next).length = capacity then (unread capacity sent next).tail
        else unread capacity sent next) ++ [e] := by
  have hlen : (unread capacity sent next).length = sent.length - max next (sent.length - capacity) :=
    List.length_drop
  rw [hlen]
  simp only [unread, List.length_append, List.length_singleton]
  split
  · next hfull =>
      have hmax : max next (sent.length + 1 - capacity) = max next (sent.length - capacity) + 1 := by
        omega
      rw [hmax, List.tail_drop, List.drop_append_of_le_length (by omega)]
  · next hroom =>
      have hmax : max next (sent.length + 1 - capacity) = max next (sent.length - capacity) := by
        omega
      rw [hmax, List.drop_append_of_le_length (by omega)]

/-- What is unread after a send was unread before it, or is what was sent. -/
theorem mem_unread_send {e x : E} (hcap : 0 < capacity) (hnext : next ≤ sent.length)
    (hx : x ∈ unread capacity (sent ++ [e]) next) : x ∈ unread capacity sent next ∨ x = e := by
  rw [unread_send hcap hnext, List.mem_append, List.mem_singleton] at hx
  split at hx
  · exact hx.imp_left List.mem_of_mem_tail
  · exact hx

end Lib.Broadcast
