/-
Bolide.Lib.Register — a value that events set.

Whoever hears events knows a value by them if each event either sets it or
leaves it alone: `latest` is what they make of it. Only the last event that
sets it counts (`latest_eq`), so it does no harm to hear events again that
the value already shows (`latest_again`).
-/
import Mathlib

namespace Lib

variable {A E : Type} (sets : E → Option A)

/-- What events make of a value. -/
def latest (a : A) (es : List E) : A := es.foldl (fun a e => (sets e).getD a) a

@[simp] theorem latest_nil (a : A) : latest sets a [] = a := rfl

@[simp] theorem latest_append (a : A) (es es' : List E) :
    latest sets a (es ++ es') = latest sets (latest sets a es) es' := List.foldl_append

@[simp] theorem latest_singleton (a : A) (e : E) : latest sets a [e] = (sets e).getD a := rfl

/-- Events that leave it alone change nothing. -/
theorem latest_mute (a : A) {es : List E} (h : ∀ e ∈ es, sets e = none) : latest sets a es = a := by
  induction es with
  | nil => rfl
  | cons e es ih =>
      have hrest := ih (fun e' he' => h e' (List.mem_cons_of_mem e he'))
      simp only [latest, List.foldl_cons, h e List.mem_cons_self, Option.getD_none]
      exact hrest

/-- Only the last event that sets the value counts. -/
theorem latest_eq (a : A) (es : List E) :
    latest sets a es = ((es.filterMap sets).getLast?).getD a := by
  induction es using List.reverseRecOn with
  | nil => rfl
  | append_singleton es e ih =>
      rw [latest_append, latest_singleton, ih, List.filterMap_append]
      cases h : sets e with
      | none => simp [h]
      | some v => simp [h]

/-- Hearing the end of it again changes nothing. -/
theorem latest_again (a : A) {es es' : List E} (h : es' <:+ es) :
    latest sets (latest sets a es) es' = latest sets a es := by
  obtain ⟨before, rfl⟩ := h
  rw [latest_append, latest_eq sets _ es', latest_eq sets _ es']
  cases (es'.filterMap sets).getLast? with
  | none => rfl
  | some v => rfl

end Lib
