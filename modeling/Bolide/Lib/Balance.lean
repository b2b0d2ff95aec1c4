/-
Bolide.Lib.Balance — what is opened is closed.

The events of a list open and close keys. A list is balanced when nothing in
it is closed before it is opened and nothing is left open. Balanced lists can
follow each other and stand inside a key that is held around them.
-/
import Mathlib.Data.List.Basic

namespace Lib

section Balance

variable {ε κ : Type} [DecidableEq ε] {opens closes : κ → ε} {es es' : List ε}

/-- Every prefix has opened each key as often as it has closed it, at the
least, and the whole has as often. -/
structure Balanced (opens closes : κ → ε) (es : List ε) : Prop where
  covered : ∀ before, before <+: es → ∀ k, before.count (closes k) ≤ before.count (opens k)
  level : ∀ k, es.count (closes k) = es.count (opens k)

/-- Events that open and close nothing. -/
theorem balanced_of_none (h : ∀ k, opens k ∉ es ∧ closes k ∉ es) : Balanced opens closes es := by
  constructor
  · intro before hbefore k
    have hnone : closes k ∉ before := fun hmem => (h k).2 (hbefore.subset hmem)
    rw [List.count_eq_zero_of_not_mem hnone]
    exact Nat.zero_le _
  · intro k
    rw [List.count_eq_zero_of_not_mem (h k).1, List.count_eq_zero_of_not_mem (h k).2]

theorem balanced_nil : Balanced opens closes [] :=
  balanced_of_none fun _ => ⟨List.not_mem_nil, List.not_mem_nil⟩

/-- One after the other. -/
theorem Balanced.append (h : Balanced opens closes es) (h' : Balanced opens closes es') :
    Balanced opens closes (es ++ es') := by
  constructor
  · intro before hbefore k
    rw [List.prefix_iff_eq_take.mp hbefore, List.take_append, List.count_append, List.count_append]
    exact Nat.add_le_add (h.covered _ (List.take_prefix _ _) k)
      (h'.covered _ (List.take_prefix _ _) k)
  · intro k
    rw [List.count_append, List.count_append, h.level k, h'.level k]

/-- A key held around what is balanced. -/
theorem Balanced.surround (h : Balanced opens closes es) (hapart : ∀ k k', opens k ≠ closes k')
    (hopens : Function.Injective opens) (hcloses : Function.Injective closes) (k : κ) :
    Balanced opens closes (opens k :: es ++ [closes k]) := by
  -- the closing is counted where the opening is
  have hsame : ∀ k', [closes k].count (closes k') = [opens k].count (opens k') := by
    intro k'
    rw [List.count_singleton, List.count_singleton]
    by_cases hk : k = k'
    · rw [hk, beq_self_eq_true, beq_self_eq_true]
    · rw [beq_false_of_ne (fun heq => hk (hcloses heq)),
        beq_false_of_ne (fun heq => hk (hopens heq))]
  have hnone : ∀ k', [opens k].count (closes k') = 0 ∧ [closes k].count (opens k') = 0 := by
    intro k'
    rw [List.count_singleton, List.count_singleton, beq_false_of_ne (hapart k k'),
      beq_false_of_ne (hapart k' k).symm]
    exact ⟨rfl, rfl⟩
  constructor
  · intro before hbefore k'
    rcases List.prefix_cons_iff.mp hbefore with rfl | ⟨rest, rfl, hrest⟩
    · exact Nat.le_refl _
    · have hinner := h.covered _ (List.take_prefix rest.length es) k'
      have hclosing := (List.take_sublist (rest.length - es.length) [closes k]).count_le (closes k')
      have hcons : opens k :: rest = [opens k] ++ rest := rfl
      have hrest' : rest <+: es ++ [closes k] := hrest
      rw [hcons, List.prefix_iff_eq_take.mp hrest', List.take_append, List.count_append,
        List.count_append, List.count_append, List.count_append, (hnone k').1]
      have hsame' := hsame k'
      omega
  · intro k'
    have hcons : opens k :: es ++ [closes k] = [opens k] ++ es ++ [closes k] := rfl
    have hsame' := hsame k'
    rw [hcons, List.count_append, List.count_append, List.count_append, List.count_append,
      (hnone k').1, (hnone k').2, h.level k']
    omega

end Balance

end Lib
